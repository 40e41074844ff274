import PxdStub.Proofs.SpelledLexemes

/-!
The lexemes of well-formed declarations, and that their spellings spell them.
-/

namespace PxdStub

def Text.lexemes (text : List Char) : List Lexeme :=
  match Lexed.ofText text with
  | .ok lexed => lexed.tokens.map Token.lexeme
  | .error _ => []

theorem Spells.lexemes_eq {lexemes : List Lexeme} {text : List Char}
    (spells : Spells lexemes text) : Text.lexemes text = lexemes := by
  obtain ⟨lexed, found, same⟩ := spells.ofText
  rw [Text.lexemes, found]
  exact same

namespace Lexeme

/-- Groups of lexemes with commas between them. -/
def listed (groups : List (List Lexeme)) : List Lexeme :=
  [.punctuation .comma].intercalate groups

def brackets (inside : List Lexeme) (dimensions : Nat) : List Lexeme :=
  (List.replicate dimensions (.opening .square :: inside ++ [.closing .square])).flatten

end Lexeme

theorem spells_listed {items : List α} {lexemes : α → List Lexeme} {text : α → List Char}
    (spells : ∀ item ∈ items, Spells (lexemes item) (text item)) :
    Spells (Lexeme.listed (items.map lexemes)) (Text.listed (items.map text)) := by
  rw [Lexeme.listed, Text.listed]
  induction items with
  | nil => exact .nil
  | cons item more ih =>
      have first := spells item List.mem_cons_self
      have later := ih fun item mem => spells item (List.mem_cons_of_mem _ mem)
      cases more with
      | nil => simpa using first
      | cons next more =>
          simp only [List.map_cons, List.intercalate_cons_cons] at later ⊢
          have whole := first.append (later.spaced (.punctuation .comma) rfl) ?_
          · simpa [Lexeme.spelling, Punctuation.spelling] using whole
          · intro last _ comma head
            cases head
            exact Lexeme.meets_mark last rfl

theorem Spells.brackets {lexemes inside : List Lexeme} {text insideText : List Char}
    (front : Spells lexemes text) (spells : Spells inside insideText) (dimensions : Nat) :
    Spells (lexemes ++ Lexeme.brackets inside dimensions)
      (text ++ PxdStub.brackets insideText dimensions) := by
  rw [Lexeme.brackets, PxdStub.brackets]
  induction dimensions generalizing lexemes text with
  | zero => simpa using front
  | succ dimensions ih =>
      have opened := front.append_mark (.opening .square) rfl spells
      have whole := ih (opened.append_mark (.closing .square) rfl .nil)
      rw [List.replicate_succ, List.replicate_succ, List.flatten_cons, List.flatten_cons]
      simpa [Lexeme.spelling, Bracket.opening, Bracket.closing] using whole

/-! ### Names and types -/

namespace QualifiedName

def scopedLexemes : List String → List Lexeme
  | [] => []
  | name :: more => .punctuation .scope :: .identifier name :: scopedLexemes more

def lexemes (name : QualifiedName) : List Lexeme :=
  if name.rooted then
    .punctuation .scope :: .identifier name.first :: scopedLexemes name.more
  else .identifier name.first :: scopedLexemes name.more

end QualifiedName

theorem Lexeme.isName_of_isPlainName {word : String} (plain : isPlainName word) : isName word := by
  simp only [isPlainName, Bool.and_eq_true] at plain
  exact plain.1.1.1

theorem Lexeme.ofWord_of_isName {word : String} (named : isName word) :
    ofWord word = .identifier word := by
  unfold isName at named
  split at named
  · cases named
  · simp only [Bool.and_eq_true, Option.isNone_iff_eq_none] at named
    rw [ofWord, named.2]

namespace QualifiedName

theorem spells_unrooted {name : String} {more : List String}
    (plain : ∀ part ∈ name :: more, Lexeme.isPlainName part) :
    Spells (.identifier name :: scopedLexemes more) (name ++ scopedText more).toList := by
  have named : Lexeme.isSpelled (.identifier name) :=
    Lexeme.isName_of_isPlainName (plain name List.mem_cons_self)
  induction more generalizing name with
  | nil =>
      have whole := Spells.single (.identifier name) named
      simpa [scopedLexemes, scopedText, Lexeme.spelling] using whole
  | cons next more ih =>
      have plain' := fun part mem => plain part (List.mem_cons_of_mem _ mem)
      have later := ih plain' (Lexeme.isName_of_isPlainName (plain' next List.mem_cons_self))
      have scope := later.joined (.punctuation .scope) rfl fun next _ =>
        Lexeme.meets_of_endsBefore (fun _ => rfl) next
      have whole := scope.joined (.identifier name) named ?_
      · simpa [scopedLexemes, scopedText, Lexeme.spelling, Punctuation.spelling] using whole
      · intro scope head
        cases head
        rfl

theorem spells {name : QualifiedName} (plain : name.IsPlain) :
    Spells name.lexemes name.text.toList := by
  have unrooted := spells_unrooted plain
  rw [lexemes, text]
  split
  · next rooted =>
      have whole := unrooted.joined (.punctuation .scope) rfl fun next _ =>
        Lexeme.meets_of_endsBefore (fun _ => rfl) next
      simpa [Lexeme.spelling, Punctuation.spelling] using whole
  · simpa using unrooted

end QualifiedName

namespace BaseType

def lexemes : BaseType → List Lexeme
  | void => [.keyword .void]
  | int => [.keyword .int]
  | double => [.keyword .double]
  | named name => Text.lexemes name.toList
  | tagged name => .keyword .structKey :: Text.lexemes name.toList
  | generic name arguments =>
      Text.lexemes name.toList ++ .opening .angle ::
        (Lexeme.listed (arguments.map fun word => [Lexeme.ofWord word]) ++ [.closing .angle])

theorem spells_argument {word : String} (isWord : isArgumentWord word) :
    Spells [Lexeme.ofWord word] word.toList := by
  simp only [isArgumentWord, Bool.or_eq_true, decide_eq_true_eq] at isWord
  obtain (rfl | rfl) | plain := isWord
  · exact .single (.keyword .int) rfl
  · exact .single (.keyword .double) rfl
  · have named := Lexeme.isName_of_isPlainName plain
    rw [Lexeme.ofWord_of_isName named]
    exact .single (.identifier word) named

theorem spells {base : BaseType} (wellFormed : base.IsWellFormed) :
    Spells base.lexemes base.spelling := by
  cases base with
  | void => exact .single (.keyword .void) rfl
  | int => exact .single (.keyword .int) rfl
  | double => exact .single (.keyword .double) rfl
  | named name =>
      obtain ⟨parts, plain, rfl⟩ := wellFormed
      have named := QualifiedName.spells plain
      unfold lexemes spelling
      dsimp only
      rw [named.lexemes_eq]
      exact named
  | tagged name =>
      obtain ⟨parts, plain, rfl⟩ := wellFormed
      have named := QualifiedName.spells plain
      have whole := named.spaced (.keyword .structKey) rfl
      unfold lexemes spelling
      dsimp only
      rw [named.lexemes_eq]
      simpa [Lexeme.spelling, Keyword.spelling] using whole
  | generic name arguments =>
      obtain ⟨⟨parts, plain, rfl⟩, words⟩ := wellFormed
      have named := QualifiedName.spells plain
      have inside := spells_listed fun word mem => spells_argument (words word mem)
      have closed := inside.append_mark (.closing .angle) rfl .nil
      have whole := named.append_mark (.opening .angle) rfl closed
      unfold lexemes spelling
      dsimp only
      rw [named.lexemes_eq]
      simpa [Lexeme.spelling, Bracket.opening, Bracket.closing] using whole

theorem lexemes_ne_nil {base : BaseType} (wellFormed : base.IsWellFormed) : base.lexemes ≠ [] := by
  have named : ∀ {name : String}, IsQualified name → Text.lexemes name.toList ≠ [] := by
    rintro _ ⟨parts, plain, rfl⟩
    rw [(QualifiedName.spells plain).lexemes_eq, QualifiedName.lexemes]
    split <;> exact List.cons_ne_nil _ _
  cases base with
  | named name => exact named wellFormed
  | generic name arguments => exact List.append_ne_nil_of_left_ne_nil (named wellFormed.1) _
  | _ => exact List.cons_ne_nil _ _

end BaseType

def Wrap.lexemes : Wrap → List Lexeme
  | star => [.punctuation .star]
  | reference => [.punctuation .ampersand]
  | array _ | unsized => []

namespace CType

def lexemes (type : CType) : List Lexeme :=
  type.base.lexemes ++ type.wraps.flatMap Wrap.lexemes

theorem spells_wraps {lexemes : List Lexeme} {text : List Char} (front : Spells lexemes text)
    (wraps : List Wrap) :
    Spells (lexemes ++ wraps.flatMap Wrap.lexemes) (text ++ wraps.flatMap Wrap.marker) := by
  induction wraps generalizing lexemes text with
  | nil => simpa using front
  | cons wrap more ih =>
      have whole : Spells (lexemes ++ wrap.lexemes) (text ++ wrap.marker) := by
        cases wrap with
        | star => exact front.append_mark (.punctuation .star) rfl .nil
        | reference => exact front.append_mark (.punctuation .ampersand) rfl .nil
        | array | unsized => simpa [Wrap.lexemes, Wrap.marker] using front
      have later := ih whole
      rw [List.flatMap_cons, List.flatMap_cons, ← List.append_assoc, ← List.append_assoc]
      exact later

theorem spells {type : CType} (wellFormed : type.base.IsWellFormed) :
    Spells type.lexemes type.spelling :=
  spells_wraps (BaseType.spells wellFormed) type.wraps

theorem lexemes_ne_nil {type : CType} (wellFormed : type.base.IsWellFormed) : type.lexemes ≠ [] :=
  List.append_ne_nil_of_left_ne_nil (BaseType.lexemes_ne_nil wellFormed) _

end CType

/-! ### Variables and parameters -/

namespace Variable

def declarator (dimensions : Nat) (name : List Char) : List Lexeme :=
  .identifier (String.ofList name) :: Lexeme.brackets [.number "1"] dimensions

def lexemes (declared : Variable) : List Lexeme :=
  declared.type.lexemes ++
    (Lexeme.listed (declared.names.map (declarator declared.type.dimensions)) ++
      [.punctuation .semicolon])

end Variable

namespace Text

theorem unlisted_append_comma {text : List Char} (plain : ',' ∉ text) (more : List Char) :
    unlisted (text ++ ',' :: ' ' :: more) = text :: unlisted more := by
  induction text with
  | nil => rfl
  | cons c text ih =>
      simp only [List.mem_cons, not_or] at plain
      rw [List.cons_append, unlisted.eq_def]
      split
      · next none => cases none
      · next same => exact absurd (List.cons.inj same).1.symm plain.1
      · next d rest _ same =>
          cases same
          rw [ih plain.2]

theorem unlisted_of_plain {text : List Char} (plain : ',' ∉ text) : unlisted text = [text] := by
  induction text with
  | nil => rfl
  | cons c text ih =>
      simp only [List.mem_cons, not_or] at plain
      rw [unlisted, ih plain.2]
      rintro rest rfl
      exact absurd rfl plain.1

theorem unlisted_listed {texts : List (List Char)} (some : texts ≠ [])
    (plain : ∀ text ∈ texts, ',' ∉ text) : unlisted (listed texts) = texts := by
  rw [listed]
  induction texts with
  | nil => exact absurd rfl some
  | cons text more ih =>
      have here := plain text List.mem_cons_self
      cases more with
      | nil => rw [List.intercalate_singleton, unlisted_of_plain here]
      | cons next more =>
          have later := ih (List.cons_ne_nil _ _) fun text mem => plain text (List.mem_cons_of_mem _ mem)
          rw [List.intercalate_cons_cons, List.append_assoc]
          exact (unlisted_append_comma here _).trans (congrArg _ later)

end Text

theorem Lexeme.ne_empty_of_isName {name : String} (named : isName name) : name ≠ "" := by
  rintro rfl
  cases named

theorem Lexeme.no_comma_of_isName {name : String} (named : isName name) : ',' ∉ name.toList := by
  intro comma
  unfold isName at named
  split at named
  · cases named
  · next c rest chars =>
      simp only [Bool.and_eq_true, List.all_eq_true] at named
      rw [chars] at comma
      obtain same | inside := List.mem_cons.1 comma
      · rw [← same] at named
        cases named.1.1
      · cases named.1.2 ',' inside

namespace Variable

variable {nested : Bool} {declared : Variable}

theorem IsWellFormed.names_eq (wellFormed : declared.IsWellFormed nested) : ∃ names : List String,
    names ≠ [] ∧ (∀ name ∈ names, Lexeme.isPlainName name) ∧
      declared.name = ", ".intercalate names ∧ declared.names = names.map String.toList := by
  obtain ⟨names, some, plain, joined⟩ := wellFormed.named
  refine ⟨names, some, plain, joined, ?_⟩
  rw [Variable.names, joined, String.toList_intercalate]
  refine Text.unlisted_listed (by simpa using some) ?_
  intro text mem
  obtain ⟨name, among, rfl⟩ := List.mem_map.1 mem
  exact Lexeme.no_comma_of_isName (Lexeme.isName_of_isPlainName (plain name among))

theorem isWellFormed_base (wellFormed : declared.IsWellFormed nested) :
    declared.type.base.IsWellFormed := by
  have builtin := wellFormed.builtin
  cases base : declared.type.base with
  | void | int | double => trivial
  | _ =>
      rw [base] at builtin
      cases builtin

theorem spells (wellFormed : declared.IsWellFormed nested) :
    Spells declared.lexemes declared.spelling := by
  obtain ⟨names, _, plain, _, same⟩ := wellFormed.names_eq
  have base := isWellFormed_base wellFormed
  have declarators := @spells_listed _ declared.names (declarator declared.type.dimensions)
    (fun name => name ++ brackets ['1'] declared.type.dimensions) ?_
  · have whole := (CType.spells base).append_blank (CType.lexemes_ne_nil base)
      (declarators.append_mark (.punctuation .semicolon) rfl .nil)
    simpa [spelling, lexemes, Lexeme.spelling, Punctuation.spelling] using whole
  · intro name mem
    rw [same] at mem
    obtain ⟨word, among, rfl⟩ := List.mem_map.1 mem
    have named := Spells.single (.identifier word) (Lexeme.isName_of_isPlainName (plain word among))
    have whole := named.brackets (Spells.single (.number "1") rfl) declared.type.dimensions
    simpa [declarator, Lexeme.spelling] using whole

theorem lexemes_ne_nil (wellFormed : declared.IsWellFormed nested) : declared.lexemes ≠ [] :=
  List.append_ne_nil_of_left_ne_nil (CType.lexemes_ne_nil (isWellFormed_base wellFormed)) _

end Variable

namespace Parameter

def nameLexemes (parameter : Parameter) : List Lexeme :=
  if parameter.name = "" then [] else [.identifier parameter.name]

def lexemes (parameter : Parameter) : List Lexeme :=
  parameter.type.lexemes ++
    (parameter.nameLexemes ++ Lexeme.brackets [] (parameter.type.wraps.count .unsized))

theorem spells {parameter : Parameter} (wellFormed : parameter.IsWellFormed) :
    Spells parameter.lexemes parameter.spelling := by
  have name : Spells parameter.nameLexemes parameter.name.toList := by
    rw [nameLexemes]
    obtain none | plain := wellFormed.named
    · rw [none]
      exact .nil
    · have named := Lexeme.isName_of_isPlainName plain
      rw [if_neg (Lexeme.ne_empty_of_isName named)]
      exact .single (.identifier parameter.name) named
  have whole := (CType.spells wellFormed.base).append_blank (CType.lexemes_ne_nil wellFormed.base)
    (name.brackets .nil (parameter.type.wraps.count .unsized))
  simpa [spelling, lexemes] using whole

end Parameter

/-! ### Functions and classes -/

namespace Function

def callLexemes (declared : Function) : List Lexeme :=
  .identifier declared.name :: .opening .round ::
    (Lexeme.listed (declared.parameters.map Parameter.lexemes) ++
      [.closing .round, .punctuation .semicolon])

def lexemes (declared : Function) : List Lexeme :=
  match declared.kind with
  | .returning type => type.lexemes ++ declared.callLexemes
  | .constructor => declared.callLexemes
  | .destructor => .punctuation .tilde :: declared.callLexemes

variable {owner : Option String} {declared : Function}

theorem spells_call (wellFormed : declared.IsWellFormed owner) :
    Spells declared.callLexemes declared.call := by
  have named := Lexeme.isName_of_isPlainName wellFormed.named
  have parameters := spells_listed fun parameter mem =>
    Parameter.spells (wellFormed.parameters parameter mem)
  have ending := (Spells.nil.mark (.punctuation .semicolon) rfl).mark (.closing .round) rfl
  have inside := parameters.append ending fun last _ first head => by
    cases head
    exact Lexeme.meets_mark last rfl
  have whole := (inside.mark (.opening .round) rfl).joined (.identifier declared.name) named ?_
  · simpa [call, callLexemes, Lexeme.spelling, Bracket.opening, Bracket.closing,
      Punctuation.spelling] using whole
  · intro first head
    cases head
    exact Lexeme.meets_mark _ rfl

theorem spells (wellFormed : declared.IsWellFormed owner) :
    Spells declared.lexemes declared.spelling := by
  have call := spells_call wellFormed
  have kind := wellFormed.kind
  unfold lexemes spelling
  cases same : declared.kind with
  | returning type =>
      rw [same] at kind
      exact (CType.spells kind.1).append_blank (CType.lexemes_ne_nil kind.1) call
  | constructor => exact call
  | destructor =>
      rw [same] at kind
      cases kind

theorem lexemes_ne_nil (wellFormed : declared.IsWellFormed owner) : declared.lexemes ≠ [] := by
  have kind := wellFormed.kind
  unfold lexemes
  cases same : declared.kind with
  | returning type =>
      rw [same] at kind
      exact List.append_ne_nil_of_left_ne_nil (CType.lexemes_ne_nil kind.1) _
  | constructor | destructor => exact List.cons_ne_nil _ _

end Function

def Member.lexemes : Member → List Lexeme
  | ofVariable declared => declared.lexemes
  | ofFunction declared => declared.lexemes

theorem Member.spells {owner : String} {member : Member} (wellFormed : member.IsWellFormed owner) :
    Spells member.lexemes member.spelling := by
  cases member with
  | ofVariable declared => exact Variable.spells wellFormed
  | ofFunction declared => exact Function.spells wellFormed

theorem Member.lexemes_ne_nil {owner : String} {member : Member}
    (wellFormed : member.IsWellFormed owner) : member.lexemes ≠ [] := by
  cases member with
  | ofVariable declared => exact Variable.lexemes_ne_nil wellFormed
  | ofFunction declared => exact Function.lexemes_ne_nil wellFormed

namespace Class

def lexemes (declared : Class) : List Lexeme :=
  .keyword .classKey :: .identifier declared.name :: .opening .curly :: .keyword .publicKey ::
    .punctuation .colon :: (declared.members.flatMap Member.lexemes ++
      [.closing .curly, .punctuation .semicolon])

theorem spells_members {owner : String} {members : List Member}
    (wellFormed : ∀ member ∈ members, member.IsWellFormed owner) {lexemes : List Lexeme}
    {text : List Char} (behind : Spells lexemes text) :
    Spells (members.flatMap Member.lexemes ++ lexemes)
      (members.flatMap (fun member => member.spelling ++ [' ']) ++ text) := by
  induction members with
  | nil => exact behind
  | cons member more ih =>
      have here := wellFormed member List.mem_cons_self
      have later := ih fun member mem => wellFormed member (List.mem_cons_of_mem _ mem)
      have whole := (Member.spells here).append_blank (Member.lexemes_ne_nil here) later
      simpa using whole

theorem spells {declared : Class} (wellFormed : declared.IsWellFormed) :
    Spells declared.lexemes declared.spelling := by
  have named := Lexeme.isName_of_isPlainName wellFormed.named
  have ending := (Spells.nil.mark (.punctuation .semicolon) rfl).mark (.closing .curly) rfl
  have members := (spells_members wellFormed.members ending).spaced (.punctuation .colon) rfl
  have label := members.joined (.keyword .publicKey) rfl fun _ colon => by
    cases colon
    rfl
  have body := (label.spaced (.opening .curly) rfl).spaced (.identifier declared.name) named
  have whole := body.spaced (.keyword .classKey) rfl
  have before : "class ".toList = "class".toList ++ [' '] := by simp
  have opening : " \x7b public: ".toList =
      ' ' :: '{' :: ' ' :: ("public".toList ++ [':', ' ']) := by simp
  have closing : "\x7d;".toList = ['}', ';'] := by simp
  unfold spelling
  simp only [before, opening, closing, List.append_assoc, List.cons_append, List.nil_append]
  exact whole

end Class

namespace Declaration

def lexemes : Declaration → List Lexeme
  | ofVariable declared => declared.lexemes
  | ofFunction declared => declared.lexemes
  | ofClass declared => declared.lexemes

theorem spells {declaration : Declaration} (wellFormed : declaration.IsWellFormed) :
    Spells declaration.lexemes declaration.spelling ∧ declaration.lexemes ≠ [] := by
  cases declaration with
  | ofVariable declared => exact ⟨Variable.spells wellFormed, Variable.lexemes_ne_nil wellFormed⟩
  | ofFunction declared => exact ⟨Function.spells wellFormed, Function.lexemes_ne_nil wellFormed⟩
  | ofClass declared => exact ⟨Class.spells wellFormed, List.cons_ne_nil _ _⟩

theorem spells_all {declarations : List Declaration}
    (wellFormed : ∀ declaration ∈ declarations, declaration.IsWellFormed) :
    Spells (declarations.flatMap lexemes) (spellAll declarations) := by
  rw [spellAll]
  induction declarations with
  | nil => exact .nil
  | cons declaration more ih =>
      obtain ⟨first, some⟩ := spells (wellFormed declaration List.mem_cons_self)
      have later := ih fun declaration mem => wellFormed declaration (List.mem_cons_of_mem _ mem)
      cases more with
      | nil => simpa using first
      | cons next more =>
          have whole := first.append_blank some later
          rw [List.flatMap_cons, List.map_cons, List.map_cons, List.intercalate_cons_cons]
          rw [List.append_assoc]
          exact whole

end Declaration

end PxdStub
