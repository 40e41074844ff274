import PxdStub.Proofs.Bindable

/-!
How declarations are spelled in C++, and which ones are well-formed. A type stands in front of the name
that it declares, its brackets behind it.
-/

namespace PxdStub

/-! ### Texts -/

namespace Text

/-- Texts with a comma and a blank between them. -/
def listed (texts : List (List Char)) : List Char :=
  [',', ' '].intercalate texts

/-- The texts between a comma and a blank. -/
def unlisted : List Char → List (List Char)
  | [] => [[]]
  | ',' :: ' ' :: rest => [] :: unlisted rest
  | c :: rest =>
      match unlisted rest with
      | text :: more => (c :: text) :: more
      | [] => [[c]]

end Text

namespace BaseType

def spelling : BaseType → List Char
  | void => "void".toList
  | int => "int".toList
  | double => "double".toList
  | named name => name.toList
  | tagged name => "struct ".toList ++ name.toList
  | generic name arguments =>
      name.toList ++ '<' :: Text.listed (arguments.map String.toList) ++ ['>']

end BaseType

/-- The marker of a wrap in front of the declared name. -/
def Wrap.marker : Wrap → List Char
  | star => ['*']
  | reference => ['&']
  | array _ | unsized => []

namespace CType

def spelling (type : CType) : List Char :=
  type.base.spelling ++ type.wraps.flatMap Wrap.marker

/-- The dimensions of the outermost wrap. -/
def dimensions (type : CType) : Nat :=
  match type.wraps.getLast? with
  | some (.array dimensions) => dimensions
  | _ => 0

end CType

/-- One pair of brackets for each dimension. -/
def brackets (inside : List Char) (dimensions : Nat) : List Char :=
  (List.replicate dimensions ('[' :: inside ++ [']'])).flatten

namespace Variable

def names (declared : Variable) : List (List Char) :=
  Text.unlisted declared.name.toList

def spelling (declared : Variable) : List Char :=
  let declarators := declared.names.map fun name => name ++ brackets ['1'] declared.type.dimensions
  declared.type.spelling ++ ' ' :: Text.listed declarators ++ [';']

end Variable

def Parameter.spelling (parameter : Parameter) : List Char :=
  parameter.type.spelling ++ ' ' :: parameter.name.toList ++
    brackets [] (parameter.type.wraps.count .unsized)

namespace Function

def call (declared : Function) : List Char :=
  declared.name.toList ++ '(' :: Text.listed (declared.parameters.map Parameter.spelling) ++
    [')', ';']

def spelling (declared : Function) : List Char :=
  match declared.kind with
  | .returning type => type.spelling ++ ' ' :: declared.call
  | .constructor => declared.call
  | .destructor => '~' :: declared.call

end Function

def Member.spelling : Member → List Char
  | ofVariable declared => declared.spelling
  | ofFunction declared => declared.spelling

/-- A class with all its members in one public section. -/
def Class.spelling (declared : Class) : List Char :=
  "class ".toList ++ declared.name.toList ++ " \x7b public: ".toList ++
    declared.members.flatMap (fun member => member.spelling ++ [' ']) ++ "\x7d;".toList

namespace Declaration

def spelling : Declaration → List Char
  | ofVariable declared => declared.spelling
  | ofFunction declared => declared.spelling
  | ofClass declared => declared.spelling

def spellAll (declarations : List Declaration) : List Char :=
  [' '].intercalate (declarations.map spelling)

end Declaration

/-! ### Well-formed declarations -/

/-- Names without a meaning of their own in a type or in front of one. -/
def Lexeme.isPlainName (word : String) : Bool :=
  isName word && !typeSpecifiers.contains word && !typeModifiers.contains word &&
    word != "operator"

/-- The parts of a name with scopes; a rooted one begins with `::`. -/
structure QualifiedName where
  rooted : Bool
  first : String
  more : List String
  deriving Repr

namespace QualifiedName

def scopedText : List String → String
  | [] => ""
  | name :: more => "::" ++ name ++ scopedText more

def text (name : QualifiedName) : String :=
  (if name.rooted then "::" else "") ++ (name.first ++ scopedText name.more)

def IsPlain (name : QualifiedName) : Prop :=
  ∀ part ∈ name.first :: name.more, Lexeme.isPlainName part

instance (name : QualifiedName) : Decidable name.IsPlain :=
  inferInstanceAs (Decidable (∀ part ∈ name.first :: name.more, Lexeme.isPlainName part))

end QualifiedName

def IsQualified (text : String) : Prop :=
  ∃ name : QualifiedName, name.IsPlain ∧ name.text = text

/-- Template arguments are single words. -/
def isArgumentWord (word : String) : Bool :=
  word = "int" || word = "double" || Lexeme.isPlainName word

def BaseType.IsWellFormed : BaseType → Prop
  | void | int | double => True
  | named name => IsQualified name
  | tagged name => IsQualified name
  | generic name arguments => IsQualified name ∧ ∀ word ∈ arguments, isArgumentWord word

/-- Pointers and references, and no reference to a reference. -/
structure Wrap.AreMarkers (wraps : List Wrap) : Prop where
  indirect : ∀ wrap ∈ wraps, wrap.isIndirection
  single : wraps.IsChain fun inner outer => inner = .reference → outer ≠ .reference

structure Variable.IsWellFormed (nested : Bool) (declared : Variable) : Prop where
  nested_eq : declared.nested = nested
  builtin : declared.type.base.isBuiltin
  named : ∃ names : List String, names ≠ [] ∧ (∀ name ∈ names, Lexeme.isPlainName name) ∧
    declared.name = ", ".intercalate names
  wrapped : ∃ markers arrays, declared.type.wraps = markers ++ arrays ∧ Wrap.AreMarkers markers ∧
    (arrays = [] ∨ ∃ dimensions, 1 ≤ dimensions ∧ arrays = [.array dimensions])

structure Parameter.IsWellFormed (parameter : Parameter) : Prop where
  passable : parameter.type.base.isPassable
  base : parameter.type.base.IsWellFormed
  named : parameter.name = "" ∨ Lexeme.isPlainName parameter.name
  wrapped : ∃ markers dimensions,
    parameter.type.wraps = markers ++ List.replicate dimensions .unsized ∧ Wrap.AreMarkers markers

def FunctionKind.IsWellFormed (owner : Option String) (name : String) : FunctionKind → Prop
  | returning type => type.base.IsWellFormed ∧ Wrap.AreMarkers type.wraps
  | constructor => owner = some name
  | destructor => False

/-- A function at the top level, or in the class `owner`. A single `void` would stand for no
parameters. -/
structure Function.IsWellFormed (owner : Option String) (declared : Function) : Prop where
  nested_eq : declared.nested = owner.isSome
  named : Lexeme.isPlainName declared.name
  kind : declared.kind.IsWellFormed owner declared.name
  parameters : ∀ parameter ∈ declared.parameters, parameter.IsWellFormed
  no_void : declared.parameters ≠ [⟨⟨.void, []⟩, ""⟩]

def Member.IsWellFormed (owner : String) : Member → Prop
  | ofVariable declared => declared.IsWellFormed true
  | ofFunction declared => declared.IsWellFormed (some owner)

structure Class.IsWellFormed (declared : Class) : Prop where
  named : Lexeme.isPlainName declared.name
  members : ∀ member ∈ declared.members, member.IsWellFormed declared.name

/-- Declarations at the top level. -/
def Declaration.IsWellFormed : Declaration → Prop
  | ofVariable declared => declared.IsWellFormed false
  | ofFunction declared => declared.IsWellFormed none
  | ofClass declared => declared.IsWellFormed

end PxdStub
