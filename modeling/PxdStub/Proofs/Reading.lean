import Mathlib
import PxdStub.Item

/-!
What readers leave. Every reader of tokens ends at a later place of the tokens it is given, both when
it finds what it reads and when it fails.
-/

namespace PxdStub

/-- A result with its place: what `restOf` takes out of a value, or the tokens of a failure, is an end
of the tokens that were read. -/
def EndsIn (tokens : List Token) (restOf : α → List Token) : Except Failure α → Prop
  | .ok value => restOf value <:+ tokens
  | .error failure => failure.rest <:+ tokens

namespace EndsIn

theorem mono {tokens more : List Token} {restOf : α → List Token} {result : Except Failure α}
    (ends : EndsIn tokens restOf result) (suffix : tokens <:+ more) : EndsIn more restOf result := by
  cases result with
  | ok value => exact List.IsSuffix.trans ends suffix
  | error failure => exact List.IsSuffix.trans ends suffix

theorem bind {tokens : List Token} {restOf : α → List Token} {restOf' : β → List Token}
    {result : Except Failure α} {next : α → Except Failure β} (ends : EndsIn tokens restOf result)
    (later : ∀ value, result = .ok value → restOf value <:+ tokens →
      EndsIn tokens restOf' (next value)) :
    EndsIn tokens restOf' (result >>= next) := by
  cases result with
  | ok value => exact later value rfl ends
  | error failure => exact ends

theorem map {tokens : List Token} {restOf : α → List Token} {restOf' : β → List Token}
    {result : Except Failure α} {change : α → β} (ends : EndsIn tokens restOf result)
    (kept : ∀ value, result = .ok value → restOf' (change value) <:+ restOf value) :
    EndsIn tokens restOf' (result.map change) := by
  cases result with
  | ok value => exact List.IsSuffix.trans (kept value rfl) ends
  | error failure => exact ends

theorem standing {tokens place : List Token} {result : Except ParseError α}
    (restOf : α → List Token) (suffix : place <:+ tokens) (found : ∀ value, result = .ok value → restOf value <:+ tokens) :
    EndsIn tokens restOf (Failure.standing place result) := by
  cases result with
  | ok value => exact found value rfl
  | error error => exact suffix

theorem unexpected (expected : String) (tokens : List Token) (restOf : α → List Token) :
    EndsIn tokens restOf (.error (.unexpected expected tokens)) :=
  List.suffix_refl tokens

end EndsIn

theorem Failure.standing_ok_iff {tokens : List Token} {result : Except ParseError α} {value : α} :
    Failure.standing tokens result = .ok value ↔ result = .ok value := by
  cases result <;> simp [Failure.standing, Except.mapError]

theorem Except.map_ok_iff {result : Except ε α} {change : α → β} {value : β} :
    result.map change = .ok value ↔ ∃ first, result = .ok first ∧ change first = value := by
  cases result <;> simp [Except.map]

theorem Except.map_error_iff {result : Except ε α} {change : α → β} {error : ε} :
    result.map change = .error error ↔ result = .error error := by
  cases result <;> simp [Except.map]

theorem Except.bind_ok_iff {result : Except ε α} {next : α → Except ε β} {value : β} :
    (result >>= next) = .ok value ↔ ∃ first, result = .ok first ∧ next first = .ok value := by
  cases result <;> simp [bind, Except.bind]

/-! ### Brackets -/

theorem List.notMem_intercalate {separator : List α} {parts : List (List α)} {value : α}
    (between : value ∉ separator) (within : ∀ part ∈ parts, value ∉ part) :
    value ∉ separator.intercalate parts := by
  induction parts with
  | nil => exact List.not_mem_nil
  | cons first rest ih =>
      obtain ⟨here, there⟩ := List.forall_mem_cons.1 within
      cases rest with
      | nil => rwa [List.intercalate_singleton]
      | cons second rest =>
          rw [List.intercalate_cons_cons, List.mem_append, List.mem_append]
          rintro ((mem | mem) | mem)
          · exact here mem
          · exact between mem
          · exact ih there mem

namespace Enclosure

variable {beyond : List Char} {place tokens rest : List Token} {token : Token} {bracket : Bracket}
  {found : Enclosure}

/-- Where an opening bracket stands, no other bracket is expected. -/
theorem read_of_opens (opens : token.lexeme = .opening bracket) :
    read beyond place (token :: rest) =
      match close? bracket 0 rest with
      | some found => .ok found
      | none =>
          let context := Text.excerpt (Token.sourceOf (token :: rest) ++ beyond)
          .error ⟨.unbalanced (.bracket bracket) context, place⟩ := by
  rw [read, List.head?_cons, Option.map_some, opens]
  rfl

theorem read_of_other (other : ∀ bracket, token.lexeme ≠ .opening bracket) :
    read beyond place (token :: rest) = .error (.unexpected "an opening bracket" place) := by
  rw [read, List.head?_cons, Option.map_some]
  split
  · next bracket opens => exact absurd (Option.some.inj opens) (other bracket)
  · rfl

theorem read_of_close? (opens : token.lexeme = .opening bracket)
    (closed : close? bracket 0 rest = some found) : read beyond place (token :: rest) = .ok found := by
  rw [read_of_opens opens, closed]

theorem close?_of_read (opens : token.lexeme = .opening bracket)
    (enclosed : read beyond place (token :: rest) = .ok found) :
    close? bracket 0 rest = some found := by
  obtain ⟨_, _, _, same, opens', closed⟩ := exists_close?_of_read enclosed
  cases same
  rw [opens] at opens'
  cases opens'
  exact closed

/-- What a bracket encloses does not depend on where the reader stands. -/
theorem read_elsewhere (place' : List Token) (enclosed : read beyond place tokens = .ok found) :
    read beyond place' tokens = .ok found := by
  obtain ⟨_, _, _, rfl, opens, closed⟩ := exists_close?_of_read enclosed
  exact read_of_close? opens closed

theorem eq_of_read (enclosed : read beyond place (token :: rest) = .ok found) :
    token :: rest = token :: found.inside ++ found.close :: found.after := by
  obtain ⟨_, _, _, same, -, closed⟩ := exists_close?_of_read enclosed
  cases same
  exact congrArg (token :: ·) (eq_of_close? closed).1

theorem after_suffix_of_read (enclosed : read beyond place tokens = .ok found) :
    found.after <:+ tokens := by
  obtain ⟨token, rest, _, rfl, -, -⟩ := exists_close?_of_read enclosed
  rw [eq_of_read enclosed]
  exact (List.suffix_cons _ _).trans (List.suffix_append _ _)

theorem endsIn_of_ok {restOf : Enclosure → List Token}
    (ok : ∀ found, read beyond place tokens = .ok found → restOf found <:+ place) :
    EndsIn place restOf (read beyond place tokens) := by
  cases enclosed : read beyond place tokens with
  | ok found => exact ok found enclosed
  | error failure =>
      unfold read at enclosed
      split at enclosed
      · split at enclosed
        · cases enclosed
        · cases enclosed
          exact List.suffix_refl place
      · cases enclosed
        exact List.suffix_refl place

theorem endsIn_read (beyond : List Char) (suffix : tokens <:+ place) :
    EndsIn place after (read beyond place tokens) :=
  endsIn_of_ok fun _ enclosed => (after_suffix_of_read enclosed).trans suffix

end Enclosure

namespace Token

theorem splitOutside_suffix (stop : Lexeme → Bool) (depth : Nat) (tokens : List Token) :
    (splitOutside stop depth tokens).2 <:+ tokens :=
  ⟨_, splitOutside_append stop depth tokens⟩

theorem splitOutside_head {stop : Lexeme → Bool} {depth : Nat} {tokens rest : List Token}
    {token : Token} (found : (splitOutside stop depth tokens).2 = token :: rest) :
    stop token.lexeme = true := by
  induction tokens generalizing depth with
  | nil => simp [splitOutside] at found
  | cons first more ih =>
      unfold splitOutside at found
      split at found
      · next here =>
          simp only [List.cons.injEq] at found
          rw [← found.1]
          simp only [Bool.and_eq_true] at here
          exact here.2
      · exact ih found

theorem dropSemicolon_suffix (tokens : List Token) : dropSemicolon tokens <:+ tokens := by
  cases tokens with
  | nil => exact List.suffix_refl []
  | cons token rest =>
      rw [dropSemicolon]
      split
      · exact List.suffix_cons token rest
      · exact List.suffix_refl _

/-! ### Types -/

theorem dropSpecifiers_suffix (behindExtern : Bool) (tokens : List Token) :
    dropSpecifiers behindExtern tokens <:+ tokens := by
  induction tokens generalizing behindExtern with
  | nil => exact List.suffix_refl []
  | cons token rest ih =>
      rw [dropSpecifiers]
      split
      · exact (ih _).trans (List.suffix_cons token rest)
      · split
        · exact (ih _).trans (List.suffix_cons token rest)
        · exact List.suffix_refl _

theorem scopedNames_suffix (tokens : List Token) : (scopedNames tokens).2 <:+ tokens := by
  fun_induction scopedNames tokens with
  | case1 colons token rest name scope identifier later ih => exact ih.trans ⟨[colons, token], rfl⟩
  | case2 => exact List.suffix_refl _
  | case3 => exact List.suffix_refl _

theorem scopedNames_of_name {colons token : Token} {rest : List Token} {name : String}
    (scope : colons.lexeme = .punctuation .scope) (identifier : token.lexeme = .identifier name) :
    scopedNames (colons :: token :: rest) =
      ("::" ++ name ++ (scopedNames rest).1, (scopedNames rest).2) := by
  rw [scopedNames.eq_def]
  dsimp only
  rw [scope, identifier]

theorem scopedNames_of_other {tokens : List Token}
    (other : ∀ colons token rest name, tokens = colons :: token :: rest →
      colons.lexeme = .punctuation .scope → token.lexeme ≠ .identifier name) :
    scopedNames tokens = ("", tokens) := by
  rw [scopedNames.eq_def]
  split
  · next colons token rest =>
      split
      · next name scope identifier => exact absurd identifier (other _ _ _ name rfl scope)
      · rfl
  · rfl

theorem builtinWords_suffix (tokens : List Token) : (builtinWords tokens).2 <:+ tokens := by
  fun_induction builtinWords tokens with
  | case1 => exact List.suffix_refl []
  | case2 token rest word found later ih => exact ih.trans (List.suffix_cons _ _)
  | case3 => exact List.suffix_refl _

end Token

theorem Wrap.read_suffix (behindAmpersand : Bool) (tokens : List Token) :
    (Wrap.read behindAmpersand tokens).2 <:+ tokens := by
  induction tokens generalizing behindAmpersand with
  | nil => exact List.suffix_refl []
  | cons token rest ih =>
      rw [Wrap.read]
      split
      · exact (ih _).trans (List.suffix_cons token rest)
      · split
        · exact (ih _).trans (List.suffix_cons token rest)
        · exact (ih _).trans (List.suffix_cons token rest)
      · exact (ih _).trans (List.suffix_cons token rest)
      · exact List.suffix_refl _

theorem Token.endsIn_unscopedName (tokens : List Token) :
    EndsIn tokens Prod.snd (unscopedName tokens) := by
  cases tokens with
  | nil => exact .unexpected _ [] _
  | cons token rest =>
      rw [unscopedName]
      split
      · next name _ => exact (scopedNames_suffix rest).trans (List.suffix_cons _ _)
      · exact .unexpected _ _ _

theorem Token.endsIn_qualifiedName (tokens : List Token) :
    EndsIn tokens Prod.snd (qualifiedName tokens) := by
  cases tokens with
  | nil => exact endsIn_unscopedName []
  | cons token rest =>
      rw [qualifiedName]
      split
      · refine EndsIn.mono ((endsIn_unscopedName rest).map ?_) (List.suffix_cons _ _)
        exact fun _ _ => List.suffix_refl _
      · exact endsIn_unscopedName _

namespace BaseType

theorem endsIn_readNamed (beyond : List Char) (tokens : List Token) :
    EndsIn tokens Prod.snd (readNamed beyond tokens) := by
  unfold readNamed
  refine (Token.endsIn_qualifiedName tokens).bind ?_
  rintro ⟨name, rest⟩ _ suffix
  dsimp only at suffix ⊢
  split
  · next token more =>
      split
      · refine ((Enclosure.endsIn_read beyond (List.suffix_refl _)).mono suffix).bind ?_
        intro found _ after
        exact after
      · exact suffix
  · exact suffix

theorem endsIn_read (beyond : List Char) (tokens : List Token) :
    EndsIn tokens Prod.snd (read beyond tokens) := by
  cases tokens with
  | nil => exact .unexpected _ [] _
  | cons token rest =>
      rw [read]
      split
      · exact List.suffix_cons _ _
      · exact List.suffix_cons _ _
      · exact List.suffix_cons _ _
      · refine EndsIn.mono ((Token.endsIn_qualifiedName rest).map ?_) (List.suffix_cons _ _)
        exact fun _ _ => List.suffix_refl _
      · refine EndsIn.mono ((Token.endsIn_qualifiedName rest).map ?_) (List.suffix_cons _ _)
        exact fun _ _ => List.suffix_refl _
      · next name _ =>
          split
          · exact Token.builtinWords_suffix (token :: rest)
          · exact endsIn_readNamed beyond (token :: rest)
      · exact endsIn_readNamed beyond (token :: rest)
      · exact .unexpected _ _ _

end BaseType

theorem CType.endsIn_read (beyond : List Char) (tokens : List Token) :
    EndsIn tokens Prod.snd (CType.read beyond tokens) := by
  unfold CType.read
  refine ((BaseType.endsIn_read beyond _).mono (Token.dropSpecifiers_suffix false tokens)).bind ?_
  rintro ⟨base, rest⟩ _ suffix
  exact (Wrap.read_suffix false rest).trans suffix

/-! ### Declarators and parameters -/

theorem Token.firstName?_eq (tokens : List Token) :
    firstName? tokens = (tokens.map lexeme).findSome? Lexeme.identifier? := by
  rw [List.findSome?_map]
  rfl

theorem Token.countP_eq (tokens : List Token) (counts : Lexeme → Bool) :
    (tokens.countP fun token => counts token.lexeme) = (tokens.map lexeme).countP counts := by
  rw [List.countP_map]
  rfl

theorem Declarator.endsIn_readGroups (tokens : List Token) (groups : List (List Token)) :
    EndsIn tokens (fun _ => []) (readGroups tokens groups) := by
  induction groups generalizing tokens with
  | nil => exact List.nil_suffix
  | cons group more ih =>
      rw [readGroups]
      split
      · exact ((ih _).map fun _ _ => List.suffix_refl _).mono (List.drop_suffix _ _)
      · exact .unexpected _ _ _

theorem Variable.endsIn_read (scope : Scope) (tokens : List Token) :
    EndsIn tokens Prod.snd (Variable.read scope tokens) := by
  unfold Variable.read
  refine (CType.endsIn_read scope.beyond tokens).bind ?_
  rintro ⟨type, rest⟩ _ suffix
  have behind := (Token.splitOutside_suffix Lexeme.isSemicolon 0 rest).trans suffix
  have after := (Token.dropSemicolon_suffix _).trans behind
  dsimp only at suffix ⊢
  split
  · exact after
  · split
    · exact (EndsIn.unexpected _ _ _).mono suffix
    · refine ((Declarator.endsIn_readGroups rest _).mono suffix).bind ?_
      intro declarators _ _
      refine (EndsIn.standing (fun _ => []) suffix ?_).bind ?_
      · exact fun _ _ => List.nil_suffix
      · exact fun _ _ _ => after

namespace Parameter

theorem endsIn_read (beyond : List Char) (tokens group : List Token) :
    EndsIn tokens (fun _ => []) (read beyond tokens group) := by
  unfold read
  refine (CType.endsIn_read beyond tokens).bind ?_
  rintro ⟨type, rest⟩ _ suffix
  dsimp only
  split
  · exact suffix
  · exact List.nil_suffix

theorem endsIn_readGroups (beyond : List Char) (tokens : List Token) (groups : List (List Token)) :
    EndsIn tokens (fun _ => []) (readGroups beyond tokens groups) := by
  induction groups generalizing tokens with
  | nil => exact List.nil_suffix
  | cons group more ih =>
      have later := (ih (tokens.drop (group.length + 1))).mono (List.drop_suffix _ _)
      unfold readGroups
      dsimp only
      split
      · exact later
      · split
        · exact later.bind fun _ _ _ => List.nil_suffix
        · refine (endsIn_read beyond tokens _).bind fun _ _ _ => ?_
          exact later.bind fun _ _ _ => List.nil_suffix

theorem endsIn_readAll (beyond : List Char) (tokens inside : List Token) :
    EndsIn tokens (fun _ => []) (readAll beyond tokens inside) := by
  unfold readAll
  split
  · exact List.nil_suffix
  · exact endsIn_readGroups beyond tokens _

end Parameter

namespace Signature

theorem eq_of_splitName {angles : Nat} {inName : Bool} {tokens name call : List Token}
    (split : splitName angles inName tokens = some (name, call)) : tokens = name ++ call := by
  induction tokens generalizing angles inName name with
  | nil => cases split
  | cons token rest ih =>
      have later : ∀ angles, (splitName angles (token.lexeme.namesOperator inName) rest).map
          (fun found => (token :: found.1, found.2)) = some (name, call) →
          token :: rest = name ++ call := by
        intro angles found
        obtain ⟨⟨front, behind⟩, inner, same⟩ := Option.map_eq_some_iff.1 found
        cases same
        rw [ih inner]
        rfl
      unfold splitName at split
      split at split
      · exact later _ split
      · exact later _ split
      · split at split
        · cases split; rfl
        · exact later _ split
      · cases split
      · cases split
      · exact later _ split

theorem endsIn_read (beyond : List Char) (inName : Bool) (tokens : List Token) :
    EndsIn tokens Prod.snd (read beyond inName tokens) := by
  unfold read
  split
  · exact .unexpected _ _ _
  · next name call split =>
      have callSuffix : call <:+ tokens := ⟨name, (eq_of_splitName split).symm⟩
      split
      · exact .unexpected _ _ _
      · refine (Enclosure.endsIn_read beyond callSuffix).bind ?_
        intro enclosed _ after
        refine (((Parameter.endsIn_readAll beyond call.tail enclosed.inside).mono
          (List.tail_suffix call)).mono callSuffix).bind ?_
        exact fun _ _ _ => after

end Signature

namespace Function

section Ending

variable {beyond : List Char} {name : String} {token : Token} {rest : List Token}

theorem dropEnding_semicolon (semicolon : token.lexeme = .punctuation .semicolon) :
    dropEnding beyond name (token :: rest) = .ok rest := by
  rw [dropEnding.eq_def]
  simp only [semicolon]

theorem dropEnding_curly (opening : token.lexeme = .opening .curly) :
    dropEnding beyond name (token :: rest) =
      (Enclosure.read beyond (token :: rest) (token :: rest)).map fun enclosed =>
        Token.dropSemicolon enclosed.after := by
  rw [dropEnding.eq_def]
  simp only [opening]

theorem dropEnding_round (opening : token.lexeme = .opening .round) :
    dropEnding beyond name (token :: rest) =
      match Enclosure.read beyond (token :: rest) (token :: rest) with
      | .ok enclosed => dropEnding beyond name enclosed.after
      | .error failure => .error failure := by
  rw [dropEnding.eq_def]
  simp only [opening]
  split
  · next found => rw [found]
  · next failed => rw [failed]

theorem dropEnding_other (semicolon : token.lexeme ≠ .punctuation .semicolon)
    (curly : token.lexeme ≠ .opening .curly) (round : token.lexeme ≠ .opening .round) :
    dropEnding beyond name (token :: rest) = dropEnding beyond name rest := by
  rw [dropEnding.eq_def]
  dsimp only
  split
  · contradiction
  · contradiction
  · contradiction
  · rfl

end Ending

theorem endsIn_dropEnding (beyond : List Char) (name : String) (tokens : List Token) :
    EndsIn tokens id (dropEnding beyond name tokens) := by
  fun_induction dropEnding beyond name tokens with
  | case1 => exact List.suffix_refl []
  | case2 token rest semicolon => exact List.suffix_cons token rest
  | case3 token rest opening =>
      refine (Enclosure.endsIn_read beyond (List.suffix_refl _)).map ?_
      exact fun found _ => Token.dropSemicolon_suffix found.after
  | case4 token rest opening enclosed found ih =>
      exact ih.mono (Enclosure.after_suffix_of_read found)
  | case5 token rest opening failure found =>
      have ends := Enclosure.endsIn_read beyond (List.suffix_refl (token :: rest))
      rw [found] at ends
      exact ends
  | case6 token rest other other' other'' ih => exact ih.mono (List.suffix_cons token rest)

theorem endsIn_read (scope : Scope) (inName : Bool) (tokens : List Token) :
    EndsIn tokens Prod.snd (read scope inName tokens) := by
  unfold read
  refine (CType.endsIn_read scope.beyond tokens).bind ?_
  rintro ⟨type, rest⟩ _ typeSuffix
  refine ((Signature.endsIn_read scope.beyond _ rest).mono typeSuffix).bind ?_
  rintro ⟨signature, behind⟩ _ suffix
  refine ((endsIn_dropEnding scope.beyond signature.name behind).mono suffix).bind ?_
  exact fun _ _ after => after

theorem dropFunctionSpecifiers_suffix (tokens : List Token) :
    Token.dropFunctionSpecifiers tokens <:+ tokens :=
  List.dropWhile_suffix _

theorem endsIn_readConstructor (scope : Scope) (tokens : List Token) :
    EndsIn tokens Prod.snd (readConstructor scope tokens) := by
  unfold readConstructor
  refine ((Signature.endsIn_read scope.beyond false _).mono
    (dropFunctionSpecifiers_suffix tokens)).bind ?_
  rintro ⟨signature, rest⟩ _ suffix
  dsimp only at suffix ⊢
  split
  · exact suffix
  · refine ((endsIn_dropEnding scope.beyond signature.name rest).mono suffix).bind ?_
    exact fun _ _ after => after

theorem endsIn_readDestructor (scope : Scope) (tokens : List Token) :
    EndsIn tokens Prod.snd (readDestructor scope tokens) := by
  have suffix := dropFunctionSpecifiers_suffix tokens
  unfold readDestructor
  split
  · exact List.nil_suffix
  · next token rest split =>
      rw [split] at suffix
      split
      · refine ((Signature.endsIn_read scope.beyond false rest).mono
          ((List.suffix_cons _ _).trans suffix)).bind ?_
        rintro ⟨signature, behind⟩ _ later
        refine ((endsIn_dropEnding scope.beyond _ behind).mono later).bind ?_
        exact fun _ _ after => after
      · exact (EndsIn.unexpected _ _ _).mono suffix

end Function

theorem Typedef.endsIn_read (tokens : List Token) :
    EndsIn tokens Prod.snd (Typedef.read tokens) := by
  have suffix := Token.splitOutside_suffix Lexeme.isSemicolon 0 tokens
  unfold Typedef.read
  split
  · exact List.suffix_refl tokens
  · next token rest split =>
      rw [split] at suffix
      exact (List.suffix_cons token rest).trans suffix

/-! ### Classes -/

namespace ClassItem

/-- What ends the bases of a class is a semicolon or the brace of its body. -/
theorem opens_of_bases {tokens rest : List Token} {token : Token}
    (bases : (Token.splitOutside (fun lexeme => lexeme.isSemicolon || lexeme = .opening .curly) 0
      tokens).2 = token :: rest) (other : ¬token.lexeme.isSemicolon) :
    token.lexeme = .opening .curly := by
  simpa [other] using Token.splitOutside_head bases

theorem endsIn_readBody (beyond : List Char) (name : String) (tokens : List Token) :
    EndsIn tokens Prod.snd (readBody beyond name tokens) := by
  have suffix := Token.splitOutside_suffix
    (fun lexeme => lexeme.isSemicolon || lexeme = .opening .curly) 0 tokens
  unfold readBody
  dsimp only
  split
  · exact List.nil_suffix
  · next token rest split =>
      rw [split] at suffix
      split
      · exact (List.suffix_cons token rest).trans suffix
      · refine (Enclosure.endsIn_read beyond suffix).map ?_
        exact fun found _ => Token.dropSemicolon_suffix found.after

theorem endsIn_read (beyond : List Char) (tokens : List Token) :
    EndsIn tokens Prod.snd (ClassItem.read beyond tokens) := by
  unfold ClassItem.read
  split
  · next word name rest =>
      split
      · split
        · exact (endsIn_readBody beyond _ rest).mono ⟨[word, name], rfl⟩
        · exact (EndsIn.unexpected _ (name :: rest) _).mono (List.suffix_cons _ _)
      · exact .unexpected _ _ _
  · split
    · exact List.nil_suffix
    · exact .unexpected _ _ _
  · exact .unexpected _ _ _

end ClassItem

/-! ### Items -/

namespace Item

theorem endsIn_readPlain (scope : Scope) (inName : Bool) (kind : Kind) (tokens : List Token) :
    EndsIn tokens Prod.snd (readPlain scope inName kind tokens) := by
  unfold readPlain
  split
  · exact Function.endsIn_read scope inName tokens
  · exact Function.endsIn_readConstructor scope tokens
  · exact Function.endsIn_readDestructor scope tokens
  · exact Typedef.endsIn_read tokens
  · exact Variable.endsIn_read scope tokens

theorem endsIn_dropTemplate (beyond : List Char) (tokens : List Token) :
    EndsIn tokens id (dropTemplate beyond tokens) := by
  have suffix := List.tail_suffix tokens
  unfold dropTemplate
  split
  · exact List.nil_suffix
  · next token rest split =>
      rw [split] at suffix
      split
      · refine EndsIn.mono ((Enclosure.endsIn_read beyond (List.suffix_refl _)).map ?_) suffix
        exact fun _ _ => List.suffix_refl _
      · exact (EndsIn.unexpected _ _ _).mono suffix

end Item

end PxdStub
