import PxdStub.Proofs.Derivation

/-!
Two runs side by side. Twin tokens have the same lexemes; they may start at other places, and what
stands between them may be other blanks and comments. Kin may differ in their string literals too.
Here stands what kin share, and when names, declarations and errors that are read from them are
alike.
-/

namespace PxdStub

/-! ### Results side by side -/

/-- Both results are values, or both are errors. -/
inductive Mirrors (fails : ε → ε' → Prop) (finds : α → β → Prop) :
    Except ε α → Except ε' β → Prop
  | error {error error'} : fails error error' → Mirrors fails finds (.error error) (.error error')
  | ok {value value'} : finds value value' → Mirrors fails finds (.ok value) (.ok value')

namespace Mirrors

variable {fails : ε → ε' → Prop} {finds : α → β → Prop} {result : Except ε α} {result' : Except ε' β}

theorem bind {later : γ → δ → Prop} {next : α → Except ε γ} {next' : β → Except ε' δ}
    (mirrors : Mirrors fails finds result result')
    (behind : ∀ value value', finds value value' → Mirrors fails later (next value) (next' value')) :
    Mirrors fails later (result >>= next) (result' >>= next') := by
  cases mirrors with
  | error fail => exact .error fail
  | ok find => exact behind _ _ find

theorem map {later : γ → δ → Prop} {change : α → γ} {change' : β → δ}
    (mirrors : Mirrors fails finds result result')
    (kept : ∀ value value', finds value value' → later (change value) (change' value')) :
    Mirrors fails later (result.map change) (result'.map change') := by
  cases mirrors with
  | error fail => exact .error fail
  | ok find => exact .ok (kept _ _ find)

theorem mapError {fails' : κ → κ' → Prop} {change : ε → κ} {change' : ε' → κ'}
    (mirrors : Mirrors fails finds result result')
    (kept : ∀ error error', fails error error' → fails' (change error) (change' error')) :
    Mirrors fails' finds (result.mapError change) (result'.mapError change') := by
  cases mirrors with
  | error fail => exact .error (kept _ _ fail)
  | ok find => exact .ok find

theorem imp {fails' : ε → ε' → Prop} {finds' : α → β → Prop}
    (mirrors : Mirrors fails finds result result')
    (error : ∀ error error', fails error error' → fails' error error')
    (value : ∀ value value', finds value value' → finds' value value') :
    Mirrors fails' finds' result result' := by
  cases mirrors with
  | error fail => exact .error (error _ _ fail)
  | ok find => exact .ok (value _ _ find)

theorem ok_iff (mirrors : Mirrors fails finds result result') :
    (∃ value, result = .ok value) ↔ ∃ value', result' = .ok value' := by
  cases mirrors <;> simp

end Mirrors

/-! ### Twin tokens -/

theorem Token.sourceOf_append (front back : List Token) :
    sourceOf (front ++ back) = sourceOf front ++ sourceOf back :=
  List.flatMap_append

namespace Token

/-- Runs of the same lexemes. With `exact` the same stands between their tokens. With `quoted` the
trimmed source from each place on is the same, where `beyond` stands behind the tokens. -/
inductive Twins (exact quoted : Prop) (beyond beyond' : List Char) : List Token → List Token → Prop
  | nil : (quoted → Text.trim beyond = Text.trim beyond') → Twins exact quoted beyond beyond' [] []
  | cons {token token' rest rest'} : token.lexeme = token'.lexeme →
      (exact → rest ≠ [] → token.gap = token'.gap) →
      (quoted → Text.trim (sourceOf (token :: rest) ++ beyond) =
        Text.trim (sourceOf (token' :: rest') ++ beyond')) →
      Twins exact quoted beyond beyond' rest rest' →
      Twins exact quoted beyond beyond' (token :: rest) (token' :: rest')

/-- Twins whatever stands behind them. -/
abbrev Alike (exact : Prop) : List Token → List Token → Prop :=
  Twins exact False [] []

namespace Twins

variable {exact quoted : Prop} {beyond beyond' : List Char} {tokens tokens' : List Token}

theorem refl (tokens : List Token) : Twins exact quoted beyond beyond tokens tokens := by
  induction tokens with
  | nil => exact .nil fun _ => rfl
  | cons token rest ih => exact .cons rfl (fun _ _ => rfl) (fun _ => rfl) ih

theorem lexemes (twins : Twins exact quoted beyond beyond' tokens tokens') :
    tokens.map lexeme = tokens'.map lexeme := by
  induction twins with
  | nil => rfl
  | cons same _ _ _ ih => rw [List.map_cons, List.map_cons, same, ih]

theorem quotes (twins : Twins exact quoted beyond beyond' tokens tokens') (quote : quoted) :
    Text.trim (sourceOf tokens ++ beyond) = Text.trim (sourceOf tokens' ++ beyond') := by
  cases twins with
  | nil same => exact same quote
  | cons _ _ same _ => exact same quote

/-- Where nothing is quoted, it does not matter what stands behind. -/
theorem of_alike (alike : Alike exact tokens tokens') (beyond beyond' : List Char) :
    Twins exact False beyond beyond' tokens tokens' := by
  induction alike with
  | nil _ => exact .nil False.elim
  | cons same gap _ _ ih => exact .cons same gap False.elim ih

theorem isEmpty (twins : Twins exact quoted beyond beyond' tokens tokens') :
    tokens.isEmpty = tokens'.isEmpty := by
  cases twins <;> rfl

end Twins

end Token

/-! ### Kin tokens -/

/-- Lexemes that are the same but for what stands in a string literal, where `payloads` relates the
one with the other. -/
inductive Lexeme.Kin (payloads : String → String → Prop) : Lexeme → Lexeme → Prop
  | refl (lexeme : Lexeme) : Kin payloads lexeme lexeme
  | string {text text' : String} : payloads text text' →
      Kin payloads (.string text) (.string text')

namespace Lexeme.Kin

variable {payloads : String → String → Prop} {lexeme lexeme' other : Lexeme}

theorem eq_or (kin : Kin payloads lexeme lexeme') : lexeme = lexeme' ∨
    ∃ text text', payloads text text' ∧ lexeme = .string text ∧ lexeme' = .string text' := by
  cases kin with
  | refl => exact .inl rfl
  | string related => exact .inr ⟨_, _, related, rfl, rfl⟩

theorem eq_of (strict : ∀ text text', payloads text text' → text = text')
    (kin : Kin payloads lexeme lexeme') : lexeme = lexeme' := by
  cases kin with
  | refl => rfl
  | string related => rw [strict _ _ related]

/-- A view that does not look into string literals is the same of both. -/
theorem view_eq (kin : Kin payloads lexeme lexeme') (view : Lexeme → α)
    (blind : ∀ text text', view (.string text) = view (.string text')) :
    view lexeme = view lexeme' := by
  cases kin with
  | refl => rfl
  | string _ => exact blind _ _

theorem eq_iff (kin : Kin payloads lexeme lexeme') (plain : other.isString = false) :
    lexeme = other ↔ lexeme' = other := by
  cases kin with
  | refl => rfl
  | string _ => constructor <;> (rintro rfl; cases plain)

end Lexeme.Kin

namespace Token

/-- Runs like twins, whose string literals may differ as `payloads` says. -/
inductive Kin (payloads : String → String → Prop) (exact quoted : Prop)
    (beyond beyond' : List Char) : List Token → List Token → Prop
  | nil : (quoted → Text.trim beyond = Text.trim beyond') →
      Kin payloads exact quoted beyond beyond' [] []
  | cons {token token' rest rest'} : Lexeme.Kin payloads token.lexeme token'.lexeme →
      (exact → rest ≠ [] → token.gap = token'.gap) →
      (quoted → Text.trim (sourceOf (token :: rest) ++ beyond) =
        Text.trim (sourceOf (token' :: rest') ++ beyond')) →
      Kin payloads exact quoted beyond beyond' rest rest' →
      Kin payloads exact quoted beyond beyond' (token :: rest) (token' :: rest')

/-- Kin whatever stands behind them. -/
abbrev Akin (payloads : String → String → Prop) (exact : Prop) : List Token → List Token → Prop :=
  Kin payloads exact False [] []

/-- The sources of kin are the same in every respect, and so are the messages about them. -/
structure Told (payloads : String → String → Prop) (exact quoted : Prop) : Prop where
  exactly : exact
  quotes : quoted
  strict : ∀ text text', payloads text text' → text = text'

theorem Twins.kin {payloads : String → String → Prop} {exact quoted : Prop}
    {beyond beyond' : List Char} {tokens tokens' : List Token}
    (twins : Twins exact quoted beyond beyond' tokens tokens') :
    Kin payloads exact quoted beyond beyond' tokens tokens' := by
  induction twins with
  | nil quote => exact .nil quote
  | @cons token _ _ _ same gap quote _ ih => exact .cons (same ▸ .refl token.lexeme) gap quote ih

namespace Kin

variable {payloads : String → String → Prop} {exact quoted : Prop} {beyond beyond' : List Char}
  {tokens tokens' : List Token}

theorem twins (strict : ∀ text text', payloads text text' → text = text')
    (kin : Kin payloads exact quoted beyond beyond' tokens tokens') :
    Twins exact quoted beyond beyond' tokens tokens' := by
  induction kin with
  | nil quote => exact .nil quote
  | cons same gap quote _ ih => exact .cons (same.eq_of strict) gap quote ih

theorem length (kin : Kin payloads exact quoted beyond beyond' tokens tokens') :
    tokens.length = tokens'.length := by
  induction kin with
  | nil => rfl
  | cons _ _ _ _ ih => rw [List.length_cons, List.length_cons, ih]

theorem lexemes_eq_iff (kin : Kin payloads exact quoted beyond beyond' tokens tokens')
    (lexemes : List Lexeme) (plain : ∀ other ∈ lexemes, other.isString = false) :
    tokens.map lexeme = lexemes ↔ tokens'.map lexeme = lexemes := by
  induction kin generalizing lexemes with
  | nil => rfl
  | cons same _ _ _ ih =>
      cases lexemes with
      | nil => simp
      | cons other others =>
          obtain ⟨here, there⟩ := List.forall_mem_cons.1 plain
          rw [List.map_cons, List.map_cons, List.cons.injEq, List.cons.injEq, same.eq_iff here,
            ih _ there]

theorem quotes (kin : Kin payloads exact quoted beyond beyond' tokens tokens') (quote : quoted) :
    Text.trim (sourceOf tokens ++ beyond) = Text.trim (sourceOf tokens' ++ beyond') := by
  cases kin with
  | nil same => exact same quote
  | cons _ _ same _ => exact same quote

theorem excerpt (kin : Kin payloads exact quoted beyond beyond' tokens tokens') (quote : quoted) :
    Text.excerpt (sourceOf tokens ++ beyond) = Text.excerpt (sourceOf tokens' ++ beyond') := by
  rw [Text.excerpt, Text.excerpt, kin.quotes quote]

theorem akin (kin : Kin payloads exact quoted beyond beyond' tokens tokens') :
    Akin payloads exact tokens tokens' := by
  induction kin with
  | nil _ => exact .nil False.elim
  | cons same gap _ _ ih => exact .cons same gap False.elim ih

theorem isEmpty (kin : Kin payloads exact quoted beyond beyond' tokens tokens') :
    tokens.isEmpty = tokens'.isEmpty := by
  cases kin <;> rfl

/-- Kin that are cut at the same place. -/
theorem split {front front' back back' : List Token}
    (kin : Kin payloads exact quoted beyond beyond' (front ++ back) (front' ++ back'))
    (size : front.length = front'.length) :
    Kin payloads exact quoted (sourceOf back ++ beyond) (sourceOf back' ++ beyond') front front' ∧
      Kin payloads exact quoted beyond beyond' back back' := by
  induction front generalizing front' with
  | nil =>
      rw [List.length_nil] at size
      rw [List.length_eq_zero_iff.1 size.symm] at kin ⊢
      exact ⟨.nil kin.quotes, kin⟩
  | cons token front ih =>
      obtain _ | ⟨token', front'⟩ := front'
      · cases size
      · cases kin with
        | cons same gap quote behind =>
            obtain ⟨here, there⟩ := ih behind (by simpa using size)
            refine ⟨.cons same (fun exactly some => gap exactly ?_) ?_ here, there⟩
            · exact fun none => some (List.append_eq_nil_iff.1 none).1
            · intro quoting
              have whole : Text.trim (sourceOf (token :: front ++ back) ++ beyond) =
                Text.trim (sourceOf (token' :: front' ++ back') ++ beyond') := quote quoting
              rwa [sourceOf_append, sourceOf_append, List.append_assoc, List.append_assoc] at whole

theorem take (kin : Kin payloads exact quoted beyond beyond' tokens tokens') (count : Nat) :
    Akin payloads exact (tokens.take count) (tokens'.take count) := by
  have size := kin.length
  rw [← List.take_append_drop count tokens, ← List.take_append_drop count tokens'] at kin
  exact (kin.split (by simp [size])).1.akin

theorem drop (kin : Kin payloads exact quoted beyond beyond' tokens tokens') (count : Nat) :
    Kin payloads exact quoted beyond beyond' (tokens.drop count) (tokens'.drop count) := by
  have size := kin.length
  rw [← List.take_append_drop count tokens, ← List.take_append_drop count tokens'] at kin
  exact (kin.split (by simp [size])).2

theorem before {rest rest' : List Token}
    (kin : Kin payloads exact quoted beyond beyond' tokens tokens')
    (behind : Kin payloads exact quoted beyond beyond' rest rest') :
    Akin payloads exact (before tokens rest) (Token.before tokens' rest') := by
  rw [Token.before, Token.before, kin.length, behind.length]
  exact kin.take _

theorem textOf (akin : Akin payloads exact tokens tokens') (told : Told payloads exact quoted) :
    textOf tokens = Token.textOf tokens' := by
  induction akin with
  | nil => rfl
  | @cons token token' rest rest' same gap _ behind ih =>
      have here := same.eq_of told.strict
      cases behind with
      | nil => exact congrArg Lexeme.spelling here
      | @cons next next' more more' _ _ _ _ =>
          change token.lexeme.spelling ++ token.gap ++ Token.textOf (next :: more) =
            token'.lexeme.spelling ++ token'.gap ++ Token.textOf (next' :: more')
          rw [here, gap told.exactly (List.cons_ne_nil _ _), ih]

theorem nameOf (akin : Akin payloads exact tokens tokens') (told : Told payloads exact quoted) :
    nameOf tokens = Token.nameOf tokens' :=
  congrArg String.ofList (akin.textOf told)

theorem namesOperator (kin : Kin payloads exact quoted beyond beyond' tokens tokens')
    (inName : Bool) : namesOperator inName tokens = Token.namesOperator inName tokens' := by
  induction kin generalizing inName with
  | nil => rfl
  | cons same _ _ _ ih =>
      rw [Token.namesOperator, Token.namesOperator, List.foldl_cons, List.foldl_cons,
        same.view_eq (fun lexeme => lexeme.namesOperator inName) fun _ _ => rfl]
      exact ih _

theorem any_head (kin : Kin payloads exact quoted beyond beyond' tokens tokens')
    (other : Lexeme) (plain : other.isString = false) :
    tokens.head?.any (fun token => token.lexeme = other) =
      tokens'.head?.any (fun token => token.lexeme = other) := by
  cases kin with
  | nil => rfl
  | cons same _ _ _ => simp [same.eq_iff plain]

theorem countP (akin : Akin payloads exact tokens tokens') (other : Lexeme)
    (plain : other.isString = false) :
    tokens.countP (fun token => token.lexeme = other) =
      tokens'.countP fun token => token.lexeme = other := by
  induction akin with
  | nil => rfl
  | cons same _ _ _ ih => simp [List.countP_cons, ih, same.eq_iff plain]

theorem firstName? (akin : Akin payloads exact tokens tokens') :
    firstName? tokens = Token.firstName? tokens' := by
  rw [Token.firstName?, Token.firstName?]
  induction akin with
  | nil => rfl
  | cons same _ _ _ ih =>
      rw [List.findSome?_cons, List.findSome?_cons,
        same.view_eq Lexeme.identifier? fun _ _ => rfl, ih]

theorem beforeInitializer (akin : Akin payloads exact tokens tokens') :
    Akin payloads exact (beforeInitializer tokens) (Token.beforeInitializer tokens') := by
  rw [Token.beforeInitializer, Token.beforeInitializer]
  induction akin with
  | nil => exact .nil False.elim
  | @cons token token' rest rest' same gap _ _ ih =>
      rw [List.takeWhile_cons, List.takeWhile_cons,
        same.view_eq (fun lexeme => lexeme != .punctuation .equals) fun _ _ => rfl]
      split
      · refine .cons same (fun exactly some => gap exactly ?_) False.elim ih
        rintro rfl
        exact some rfl
      · exact .nil False.elim

end Kin

end Token

/-! ### Names and types -/

/-- Names that are the same as far as the source is. -/
def Written (exact : Prop) (text text' : String) : Prop :=
  exact → text = text'

/-- Kin among the tokens have names that `written` relates. -/
def Token.Names (payloads written : String → String → Prop) (exact : Prop)
    (tokens tokens' : List Token) : Prop :=
  ∀ run run', run <:+: tokens → run' <:+: tokens' → Akin payloads exact run run' →
    written (nameOf run) (nameOf run')

namespace Token.Names

variable {payloads written : String → String → Prop} {exact : Prop}
  {tokens tokens' rest rest' : List Token}

theorem among (names : Names payloads written exact tokens tokens') (within : rest <:+: tokens)
    (within' : rest' <:+: tokens') : Names payloads written exact rest rest' :=
  fun run run' inside inside' => names run run' (inside.trans within) (inside'.trans within')

theorem suffix (names : Names payloads written exact tokens tokens') (suffix : rest <:+ tokens)
    (suffix' : rest' <:+ tokens') : Names payloads written exact rest rest' :=
  names.among suffix.isInfix suffix'.isInfix

theorem exactly (tokens tokens' : List Token) :
    Names Eq (Written exact) exact tokens tokens' :=
  fun _ _ _ _ akin exactly => akin.nameOf ⟨exactly, trivial, fun _ _ => id⟩

end Token.Names

theorem List.Forall₂.eq_of_mem {related : α → α → Prop} {values values' : List α}
    (all : List.Forall₂ related values values')
    (same : ∀ value ∈ values, ∀ value', related value value' → value = value') :
    values = values' := by
  induction all with
  | nil => rfl
  | cons first _ ih =>
      obtain ⟨here, there⟩ := List.forall_mem_cons.1 same
      rw [here _ first, ih there]

theorem List.Forall₂.eq_of {related : α → α → Prop} {values values' : List α}
    (same : ∀ value value', related value value' → value = value')
    (all : List.Forall₂ related values values') : values = values' :=
  List.Forall₂.eq_of_mem all fun value _ => same value

/-- Texts that `written` relates to themselves only. -/
def Fixed (written : String → String → Prop) (texts : List String) : Prop :=
  ∀ text ∈ texts, ∀ text', written text text' → text = text'

namespace Fixed

theorem of_exactly {exact : Prop} (exactly : exact) (texts : List String) :
    Fixed (Written exact) texts :=
  fun _ _ _ same => same exactly

theorem of_mem {written : String → String → Prop} {parts : List α} {textsOf : α → List String}
    (fixed : Fixed written (parts.flatMap textsOf)) {part : α} (mem : part ∈ parts) :
    Fixed written (textsOf part) :=
  fun text within => fixed text (List.mem_flatMap_of_mem mem within)

end Fixed

/-- Types with the same names and wraps; template arguments are as they are written. -/
inductive BaseType.Alike (written : String → String → Prop) : BaseType → BaseType → Prop
  | plain {base} : (∀ name arguments, base ≠ .generic name arguments) → Alike written base base
  | generic {name arguments arguments'} : List.Forall₂ written arguments arguments' →
      Alike written (.generic name arguments) (.generic name arguments')

/-- What a type keeps as it is written. -/
def BaseType.texts : BaseType → List String
  | generic _ arguments => arguments
  | _ => []

theorem BaseType.Alike.eq_of_fixed {written : String → String → Prop} {base base' : BaseType}
    (alike : base.Alike written base') (fixed : Fixed written base.texts) : base = base' := by
  cases alike with
  | plain _ => rfl
  | generic all => rw [List.Forall₂.eq_of_mem all fixed]

structure CType.Alike (written : String → String → Prop) (type type' : CType) : Prop where
  base : type.base.Alike written type'.base
  wraps : type.wraps = type'.wraps

def CType.texts (type : CType) : List String :=
  type.base.texts

theorem CType.Alike.eq_of_fixed {written : String → String → Prop} {type type' : CType}
    (alike : type.Alike written type') (fixed : Fixed written type.texts) : type = type' := by
  obtain ⟨base, wraps⟩ := type
  obtain ⟨base', wraps'⟩ := type'
  obtain ⟨alike, rfl⟩ := alike
  obtain rfl : base = base' := alike.eq_of_fixed fixed
  rfl

/-- How messages name types that are alike. -/
def CType.Named (written : String → String → Prop) (text text' : String) : Prop :=
  text = text' ∨ ∃ type type' : CType, type.Alike written type' ∧ text = type.render ∧
    text' = type'.render

theorem CType.Named.eq_of_fixed {written : String → String → Prop} {text text' : String}
    (named : CType.Named written text text')
    (fixed : ∀ type : CType, type.render = text → Fixed written type.texts) : text = text' := by
  obtain same | ⟨type, type', alike, rfl, rfl⟩ := named
  · exact same
  · rw [alike.eq_of_fixed (fixed type rfl)]

/-! ### Declarations and omissions -/

structure Variable.Alike (written : String → String → Prop) (declared declared' : Variable) :
    Prop where
  type : declared.type.Alike written declared'.type
  name : declared.name = declared'.name
  nested : declared.nested = declared'.nested

def Variable.texts (declared : Variable) : List String :=
  declared.type.texts

theorem Variable.Alike.eq_of_fixed {written : String → String → Prop}
    {declared declared' : Variable} (alike : declared.Alike written declared')
    (fixed : Fixed written declared.texts) : declared = declared' := by
  obtain ⟨type, name, nested⟩ := declared
  obtain ⟨type', name', nested'⟩ := declared'
  obtain ⟨alike, rfl, rfl⟩ := alike
  obtain rfl : type = type' := alike.eq_of_fixed fixed
  rfl

structure Parameter.Alike (written : String → String → Prop) (parameter parameter' : Parameter) :
    Prop where
  type : parameter.type.Alike written parameter'.type
  name : parameter.name = parameter'.name

def Parameter.texts (parameter : Parameter) : List String :=
  parameter.type.texts

theorem Parameter.Alike.eq_of_fixed {written : String → String → Prop}
    {parameter parameter' : Parameter} (alike : parameter.Alike written parameter')
    (fixed : Fixed written parameter.texts) : parameter = parameter' := by
  obtain ⟨type, name⟩ := parameter
  obtain ⟨type', name'⟩ := parameter'
  obtain ⟨alike, rfl⟩ := alike
  obtain rfl : type = type' := alike.eq_of_fixed fixed
  rfl

inductive FunctionKind.Alike (written : String → String → Prop) :
    FunctionKind → FunctionKind → Prop
  | returning {type type'} : type.Alike written type' →
      Alike written (.returning type) (.returning type')
  | constructor : Alike written .constructor .constructor
  | destructor : Alike written .destructor .destructor

def FunctionKind.texts : FunctionKind → List String
  | returning type => type.texts
  | constructor | destructor => []

theorem FunctionKind.Alike.eq_of_fixed {written : String → String → Prop}
    {kind kind' : FunctionKind} (alike : kind.Alike written kind')
    (fixed : Fixed written kind.texts) : kind = kind' := by
  cases alike with
  | returning alike => rw [alike.eq_of_fixed fixed]
  | constructor | destructor => rfl

structure Function.Alike (written : String → String → Prop) (declared declared' : Function) :
    Prop where
  kind : declared.kind.Alike written declared'.kind
  name : written declared.name declared'.name
  parameters : List.Forall₂ (Parameter.Alike written) declared.parameters declared'.parameters
  nested : declared.nested = declared'.nested

/-- Names of operators and conversions are kept as they are written. -/
def Function.texts (declared : Function) : List String :=
  declared.name :: (declared.kind.texts ++ declared.parameters.flatMap Parameter.texts)

theorem Function.Alike.eq_of_fixed {written : String → String → Prop}
    {declared declared' : Function} (alike : declared.Alike written declared')
    (fixed : Fixed written declared.texts) : declared = declared' := by
  obtain ⟨kind, name, parameters, nested⟩ := declared
  obtain ⟨kind', name', parameters', nested'⟩ := declared'
  obtain ⟨alike, named, all, rfl⟩ := alike
  obtain ⟨here, later⟩ := List.forall_mem_cons.1 fixed
  obtain ⟨ofKind, ofParameters⟩ := List.forall_mem_append.1 later
  obtain rfl : kind = kind' := alike.eq_of_fixed ofKind
  obtain rfl : name = name' := here _ named
  obtain rfl : parameters = parameters' := List.Forall₂.eq_of_mem all fun parameter mem _ alike =>
    Parameter.Alike.eq_of_fixed alike (Fixed.of_mem ofParameters mem)
  rfl

inductive Member.Alike (written : String → String → Prop) : Member → Member → Prop
  | ofVariable {declared declared'} : declared.Alike written declared' →
      Alike written (.ofVariable declared) (.ofVariable declared')
  | ofFunction {declared declared'} : declared.Alike written declared' →
      Alike written (.ofFunction declared) (.ofFunction declared')

def Member.texts : Member → List String
  | ofVariable declared => declared.texts
  | ofFunction declared => declared.texts

theorem Member.Alike.eq_of_fixed {written : String → String → Prop} {member member' : Member}
    (alike : member.Alike written member') (fixed : Fixed written member.texts) :
    member = member' := by
  cases alike with
  | ofVariable alike | ofFunction alike => rw [alike.eq_of_fixed fixed]

structure Class.Alike (written : String → String → Prop) (declared declared' : Class) : Prop where
  name : declared.name = declared'.name
  members : List.Forall₂ (Member.Alike written) declared.members declared'.members

def Class.texts (declared : Class) : List String :=
  declared.members.flatMap Member.texts

theorem Class.Alike.eq_of_fixed {written : String → String → Prop} {declared declared' : Class}
    (alike : declared.Alike written declared') (fixed : Fixed written declared.texts) :
    declared = declared' := by
  obtain ⟨name, members⟩ := declared
  obtain ⟨name', members'⟩ := declared'
  obtain ⟨rfl, all⟩ := alike
  obtain rfl : members = members' := List.Forall₂.eq_of_mem all fun member mem _ alike =>
    Member.Alike.eq_of_fixed alike (Fixed.of_mem fixed mem)
  rfl

inductive Declaration.Alike (written : String → String → Prop) : Declaration → Declaration → Prop
  | ofVariable {declared declared'} : declared.Alike written declared' →
      Alike written (.ofVariable declared) (.ofVariable declared')
  | ofFunction {declared declared'} : declared.Alike written declared' →
      Alike written (.ofFunction declared) (.ofFunction declared')
  | ofClass {declared declared'} : declared.Alike written declared' →
      Alike written (.ofClass declared) (.ofClass declared')

/-- What a declaration keeps as it is written. -/
def Declaration.texts : Declaration → List String
  | ofVariable declared => declared.texts
  | ofFunction declared => declared.texts
  | ofClass declared => declared.texts

namespace Declaration.Alike

variable {exact : Prop} {written : String → String → Prop}

theorem eq_of_fixed {declaration declaration' : Declaration}
    (alike : declaration.Alike written declaration') (fixed : Fixed written declaration.texts) :
    declaration = declaration' := by
  cases alike with
  | ofVariable alike | ofFunction alike | ofClass alike => rw [alike.eq_of_fixed fixed]

theorem eq {declaration declaration' : Declaration}
    (alike : declaration.Alike (Written exact) declaration') (exactly : exact) :
    declaration = declaration' :=
  alike.eq_of_fixed (.of_exactly exactly _)

theorem members {declarations declarations' : List Declaration}
    (all : List.Forall₂ (Declaration.Alike written) declarations declarations') :
    List.Forall₂ (Member.Alike written) (declarations.filterMap member?)
      (declarations'.filterMap member?) := by
  refine List.rel_filterMap ?_ all
  intro declaration declaration' alike
  cases alike with
  | ofVariable alike => exact .some (.ofVariable alike)
  | ofFunction alike => exact .some (.ofFunction alike)
  | ofClass _ => exact .none

end Declaration.Alike

inductive Omission.Alike (written : String → String → Prop) : Omission → Omission → Prop
  | ofVariable {name text text'} : CType.Named written text text' →
      Alike written ⟨name, text⟩ ⟨name, text'⟩
  | ofFunction {name name' text text'} : written name name' → CType.Named written text text' →
      Alike written ⟨name, text⟩ ⟨name', text'⟩

theorem Omission.Alike.eq_of_fixed {written : String → String → Prop}
    {omission omission' : Omission} (alike : omission.Alike written omission')
    (fixed : Fixed written [omission.declaration])
    (fixed' : ∀ type : CType, type.render = omission.type → Fixed written type.texts) :
    omission = omission' := by
  cases alike with
  | ofVariable named => rw [named.eq_of_fixed fixed']
  | @ofFunction name name' _ _ same named =>
      obtain rfl : name = name' := fixed name List.mem_cons_self name' same
      rw [named.eq_of_fixed fixed']

theorem Omission.Alike.eq {exact : Prop} {omission omission' : Omission}
    (alike : omission.Alike (Written exact) omission') (exactly : exact) :
    omission = omission' :=
  alike.eq_of_fixed (.of_exactly exactly _) fun _ _ => .of_exactly exactly _

/-! ### Errors and courses -/

/-- An error without the place that it is about. -/
def ParseError.unplaced : ParseError → ParseError
  | unclosedComment _ => .unclosedComment 0
  | unexpectedToken expected found _ => .unexpectedToken expected found 0
  | unclosedLiteral _ => .unclosedLiteral 0
  | error => error

/-- Errors of the same sort; with `same` they differ in their places at most. -/
structure ParseError.Alike (same : Prop) (error error' : ParseError) : Prop where
  trouble : error.trouble = error'.trouble
  unplaced : same → error.unplaced = error'.unplaced

namespace ParseError.Alike

variable {same : Prop}

theorem refl (error : ParseError) : error.Alike same error :=
  ⟨rfl, fun _ => rfl⟩

theorem mono {same' : Prop} {error error' : ParseError} (alike : error.Alike same error')
    (less : same' → same) : error.Alike same' error' :=
  ⟨alike.trouble, fun told => alike.unplaced (less told)⟩

theorem unexpected {payloads : String → String → Prop} {exact quoted exact' quoted' : Prop}
    {beyond beyond' : List Char} {tokens tokens' : List Token} (expected : String)
    (kin : Token.Kin payloads exact quoted beyond beyond' tokens tokens') :
    ParseError.Alike (Token.Told payloads exact' quoted') (.unexpected expected tokens)
      (.unexpected expected tokens') := by
  cases kin with
  | nil => exact .refl _
  | cons lexeme _ _ _ =>
      refine ⟨rfl, fun told => ?_⟩
      rw [ParseError.unexpected, ParseError.unexpected, lexeme.eq_of told.strict]
      rfl

end ParseError.Alike

def Failure.Alike (same : Prop) (failure failure' : Failure) : Prop :=
  failure.error.Alike same failure'.error

theorem Failure.Alike.mono {same same' : Prop} {failure failure' : Failure}
    (alike : failure.Alike same failure') (less : same' → same) : failure.Alike same' failure' :=
  ParseError.Alike.mono alike less

theorem Failure.Alike.unexpected {payloads : String → String → Prop}
    {exact quoted exact' quoted' : Prop} {beyond beyond' : List Char} {tokens tokens' : List Token}
    (expected : String) (kin : Token.Kin payloads exact quoted beyond beyond' tokens tokens') :
    Failure.Alike (Token.Told payloads exact' quoted') (.unexpected expected tokens)
      (.unexpected expected tokens') :=
  ParseError.Alike.unexpected expected kin

/-- Readers that find alike values on kin, and leave kin, or fail alike. -/
abbrev Token.Reads (payloads : String → String → Prop) (exact quoted : Prop)
    (beyond beyond' : List Char) (finds : α → β → Prop) :
    Except Failure (α × List Token) → Except Failure (β × List Token) → Prop :=
  Mirrors (Failure.Alike (Told payloads exact quoted)) fun found found' =>
    finds found.1 found'.1 ∧ Kin payloads exact quoted beyond beyond' found.2 found'.2

/-- A continuation that may use that both readers stay within their tokens. -/
theorem Mirrors.bind_within {fails : Failure → Failure → Prop} {finds : α → β → Prop}
    {later : γ → δ → Prop} {restOf : α → List Token} {restOf' : β → List Token}
    {tokens tokens' : List Token} {result : Except Failure α} {result' : Except Failure β}
    {next : α → Except Failure γ} {next' : β → Except Failure δ}
    (mirrors : Mirrors fails finds result result') (ends : EndsIn tokens restOf result)
    (ends' : EndsIn tokens' restOf' result')
    (behind : ∀ value value', finds value value' → restOf value <:+ tokens →
      restOf' value' <:+ tokens' → Mirrors fails later (next value) (next' value')) :
    Mirrors fails later (result >>= next) (result' >>= next') := by
  cases mirrors with
  | error fail => exact .error fail
  | ok find => exact behind _ _ find ends ends'

/-- What comes of an item in both runs. -/
structure Outcome.Alike (written : String → String → Prop) (outcome outcome' : Outcome) : Prop where
  declaration? : Option.Rel (Declaration.Alike written) outcome.declaration? outcome'.declaration?
  omissions : List.Forall₂ (Omission.Alike written) (Note.omissions outcome.notes)
    (Note.omissions outcome'.notes)

/-- Courses that end alike and omit alike. -/
structure Course.Mirrors (written : String → String → Prop) (fails : ε → ε' → Prop)
    (finds : α → β → Prop) (course : Course ε α) (course' : Course ε' β) : Prop where
  result : PxdStub.Mirrors fails finds course.result course'.result
  omissions : List.Forall₂ (Omission.Alike written) (Note.omissions course.notes)
    (Note.omissions course'.notes)

/-- What a course loses does not count as omitted. -/
theorem Note.omissions_lose (notes : List Note) : omissions (notes.map lose) = [] := by
  induction notes with
  | nil => rfl
  | cons note notes ih => cases note <;> exact ih

namespace Course.Mirrors

variable {written : String → String → Prop} {fails : ε → ε' → Prop} {finds : α → β → Prop}

theorem pure {value : α} {value' : β} (find : finds value value') :
    Mirrors written fails finds (Course.pure value) (Course.pure value') :=
  ⟨.ok find, .nil⟩

theorem fail {error : ε} {error' : ε'} (fail : fails error error') :
    Mirrors written fails finds (Course.fail error) (Course.fail error') :=
  ⟨.error fail, .nil⟩

theorem ofExcept {result : Except ε α} {result' : Except ε' β}
    (mirrors : PxdStub.Mirrors fails finds result result') :
    Mirrors written fails finds (Course.ofExcept result) (Course.ofExcept result') :=
  ⟨mirrors, .nil⟩

theorem note {notes notes' : List Note}
    (omissions : List.Forall₂ (Omission.Alike written) (Note.omissions notes)
      (Note.omissions notes')) :
    Mirrors written fails (fun _ _ => True) (Course.note notes) (Course.note notes') :=
  ⟨.ok trivial, omissions⟩

theorem bind {later : γ → δ → Prop} {course : Course ε α} {course' : Course ε' β}
    {next : α → Course ε γ} {next' : β → Course ε' δ}
    (mirrors : Mirrors written fails finds course course')
    (behind : ∀ value value', course.result = .ok value → course'.result = .ok value' →
      finds value value' → Mirrors written fails later (next value) (next' value')) :
    Mirrors written fails later (course.bind next) (course'.bind next') := by
  obtain ⟨notes, result⟩ := course
  obtain ⟨notes', result'⟩ := course'
  obtain ⟨result, omissions⟩ := mirrors
  cases result with
  | error fail => exact ⟨.error fail, omissions⟩
  | ok find =>
      obtain ⟨ends, more⟩ := behind _ _ rfl rfl find
      refine ⟨ends, ?_⟩
      change List.Forall₂ _ (Note.omissions (notes ++ _)) (Note.omissions (notes' ++ _))
      rw [Note.omissions_append, Note.omissions_append]
      exact List.rel_append omissions more

theorem mapError {fails' : κ → κ' → Prop} {change : ε → κ} {change' : ε' → κ'}
    {course : Course ε α} {course' : Course ε' β}
    (mirrors : Mirrors written fails finds course course')
    (kept : ∀ error error', fails error error' → fails' (change error) (change' error')) :
    Mirrors written fails' finds (course.mapError change) (course'.mapError change') :=
  ⟨mirrors.result.mapError kept, mirrors.omissions⟩

theorem imp {fails' : ε → ε' → Prop} {finds' : α → β → Prop} {course : Course ε α}
    {course' : Course ε' β} (mirrors : Mirrors written fails finds course course')
    (error : ∀ error error', fails error error' → fails' error error')
    (value : ∀ value value', finds value value' → finds' value value') :
    Mirrors written fails' finds' course course' :=
  ⟨mirrors.result.imp error value, mirrors.omissions⟩

theorem losing {course : Course ε α} {course' : Course ε' β}
    (mirrors : Mirrors written fails finds course course') :
    Mirrors written fails finds course.losing course'.losing := by
  obtain ⟨notes, result⟩ := course
  obtain ⟨notes', result'⟩ := course'
  obtain ⟨result, omissions⟩ := mirrors
  cases result with
  | ok find => exact ⟨.ok find, omissions⟩
  | error fail =>
      refine ⟨.error fail, ?_⟩
      change List.Forall₂ _ (Note.omissions (notes.map Note.lose))
        (Note.omissions (notes'.map Note.lose))
      rw [Note.omissions_lose, Note.omissions_lose]
      exact .nil

theorem all {courses : List (Course ε α)} {courses' : List (Course ε' β)}
    (mirrors : List.Forall₂ (Mirrors written fails finds) courses courses') :
    Mirrors written fails (List.Forall₂ finds) (Course.all courses) (Course.all courses') := by
  induction mirrors with
  | nil => exact .pure .nil
  | cons first _ ih =>
      exact first.bind fun _ _ _ _ find => ih.bind fun _ _ _ _ more => .pure (.cons find more)

end Course.Mirrors

end PxdStub
