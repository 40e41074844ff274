import PxdStub.Proofs.DefaultValues
import PxdStub.Proofs.TypeExpressions

/-!
Names of operators. With the word `operator` and a symbol for its name a function is told in the
same way as with any other name. The call operator is the exception: its parentheses are taken for
the parameters.
-/

namespace PxdStub

/-! ### Lexing -/

/-- Characters of operators that are a lexeme each. -/
def operatorChars : List Char :=
  ['+', '-', '*', '/', '%', '^', '&', '|', '~', '!', '=', '<', '>', ',', '[', ']']

/-- Such a character belongs to no gap and to no word, and it is read alone. -/
theorem Lexeme.apart_of_operatorChar {c : Char} (mem : c ∈ operatorChars) :
    Text.isBlank c = false ∧ c ≠ '#' ∧ isWordPart c = false ∧
      ∀ rest, read? c rest = some (ofChar c, rest) := by
  fin_cases mem <;> exact ⟨rfl, by decide, rfl, fun _ => rfl⟩

namespace Text

/-- Text of such characters in which no comment begins. -/
def isSymbols : List Char → Bool
  | [] => true
  | c :: rest =>
      operatorChars.contains c &&
        (c != '/' || rest.head?.all fun next => next != '/' && next != '*') && isSymbols rest

theorem isSymbols_cons {c : Char} {rest : List Char} : isSymbols (c :: rest) ↔
    c ∈ operatorChars ∧ (c = '/' → rest.head? ≠ some '/' ∧ rest.head? ≠ some '*') ∧
      isSymbols rest := by
  rw [isSymbols]
  cases rest with
  | nil => simp
  | cons next rest =>
      simp only [List.head?_cons, Option.all_some, Bool.and_eq_true, Bool.or_eq_true,
        List.contains_iff_mem, bne_iff_ne, ne_eq, Option.some.injEq, and_assoc]
      rw [← imp_iff_not_or]

theorem splitGap_symbols {text : List Char} (symbols : isSymbols text) :
    splitGap text = ([], text) := by
  cases text with
  | nil => exact splitGap_nil
  | cons c rest =>
      obtain ⟨mem, slash, _⟩ := isSymbols_cons.1 symbols
      obtain ⟨ink, hash, _⟩ := Lexeme.apart_of_operatorChar mem
      exact splitGap_other ink hash slash

end Text

theorem Token.readFrom_symbols {text : List Char} (symbols : Text.isSymbols text) (start : Nat) :
    ∃ tokens, readFrom start text = .ok tokens ∧
      tokens.map lexeme = text.map Lexeme.ofChar ∧ ∀ token ∈ tokens, token.gap = [] := by
  induction text generalizing start with
  | nil => exact ⟨[], by rw [readFrom], rfl, by simp⟩
  | cons c rest ih =>
      obtain ⟨mem, slash, symbols⟩ := Text.isSymbols_cons.1 symbols
      obtain ⟨tokens, found, spelled, gapless⟩ :=
        ih symbols (start + Text.size (Lexeme.ofChar c).spelling + Text.size [])
      have plain : Text.startsWith Delimiter.comment.opening (c :: rest) = false := by
        cases rest with
        | nil => simp [Text.startsWith, Text.after?, Delimiter.opening]
        | cons next rest =>
            have apart : ¬('/' = c ∧ '*' = next) := by
              rintro ⟨rfl, rfl⟩
              exact (slash rfl).2 rfl
            simpa [Text.startsWith, Text.after?, Delimiter.opening] using apart
      refine ⟨⟨.ofChar c, start, []⟩ :: tokens, ?_, ?_, List.forall_mem_cons.2 ⟨rfl, gapless⟩⟩
      · exact readFrom_cons plain ((Lexeme.apart_of_operatorChar mem).2.2.2 rest)
          (Text.splitGap_symbols symbols) found
      · rw [List.map_cons, List.map_cons, spelled]

theorem Token.endsBare_of_gapless {tokens : List Token} (some : tokens ≠ [])
    (gapless : ∀ token ∈ tokens, token.gap = []) : endsBare tokens := by
  rw [endsBare, List.getLast?_eq_some_getLast some, Option.any_some,
    gapless _ (List.getLast_mem some), List.isEmpty_nil]

/-- A word with symbols behind it. -/
theorem Lexed.ofText_symbols {word : String} {text : List Char} (named : Lexeme.isName word)
    (symbols : Text.isSymbols text) : ∃ tokens, ofText (word.toList ++ text) = .ok ⟨[], tokens⟩ ∧
      tokens.map Token.lexeme = .identifier word :: text.map Lexeme.ofChar ∧
      Token.endsBare tokens := by
  rw [Lexeme.isName] at named
  split at named
  · cases named
  · next c rest chars =>
      simp only [Bool.and_eq_true, Option.isNone_iff_eq_none] at named
      obtain ⟨⟨starts, goesOn⟩, unknown⟩ := named
      have ends : text.head?.all fun next => !Lexeme.isWordPart next := by
        cases text with
        | nil => rfl
        | cons next text =>
            obtain ⟨mem, _⟩ := Text.isSymbols_cons.1 symbols
            obtain ⟨_, _, apart, _⟩ := Lexeme.apart_of_operatorChar mem
            simp [apart]
      have ink := Lexeme.isInk_of_isWordStart starts
      simp only [Lexeme.isInk, Bool.and_eq_true, Bool.not_eq_true', bne_iff_ne] at ink
      have gap : Text.splitGap (c :: (rest ++ text)) = ([], c :: (rest ++ text)) :=
        Text.splitGap_other ink.1.1 ink.1.2 fun slash => absurd slash ink.2
      have plain : Text.startsWith Delimiter.comment.opening (c :: (rest ++ text)) = false := by
        simp [Text.startsWith, Text.after?, Delimiter.opening, Ne.symm ink.2]
      have read := Lexeme.read?_word starts goesOn ends
      rw [← chars, String.ofList_toList, Lexeme.ofWord, unknown] at read
      obtain ⟨tokens, found, spelled, gapless⟩ := Token.readFrom_symbols symbols
        (0 + Text.size (Lexeme.identifier word).spelling + Text.size [])
      refine ⟨⟨.identifier word, 0, []⟩ :: tokens, ?_, ?_, ?_⟩
      · rw [chars, List.cons_append, ofText, gap]
        exact Except.map_ok_iff.2 ⟨_, Token.readFrom_cons plain read
          (Text.splitGap_symbols symbols) found, rfl⟩
      · rw [List.map_cons, spelled]
      · exact Token.endsBare_of_gapless (List.cons_ne_nil _ _)
          (List.forall_mem_cons.2 ⟨rfl, gapless⟩)

/-! ### Names of functions -/

namespace Lexeme

/-- Whether the search for the parameters passes a lexeme of a name. Brackets of templates and an
equals sign are passed where an operator's name goes on only. -/
def isNamePart (inName : Bool) : Lexeme → Bool
  | opening .round | opening .curly | closing .curly | punctuation .semicolon => false
  | opening .angle | closing .angle | punctuation .equals => inName
  | _ => true

def areNameParts (inName : Bool) : List Lexeme → Bool
  | [] => true
  | lexeme :: rest => lexeme.isNamePart inName && areNameParts (lexeme.namesOperator inName) rest

/-- Lexemes that name a function: a word, and symbols behind it that are passed. -/
inductive NamesFunction : List Lexeme → Prop
  | intro {word : String} {symbols : List Lexeme} : (identifier word).builtinWord? = none →
      areNameParts (word = "operator") symbols → NamesFunction (identifier word :: symbols)

theorem NamesFunction.areNameParts {lexemes : List Lexeme} (names : NamesFunction lexemes)
    (inName : Bool) : Lexeme.areNameParts inName lexemes := by
  obtain ⟨_, symbols⟩ := names
  exact symbols

end Lexeme

section

variable {inName : Bool} {token opening : Token} {name rest : List Token}

theorem Kind.isCallable_of_namePart (part : token.lexeme.isNamePart inName) :
    isCallable 0 0 inName (token :: rest) =
      isCallable 0 0 (token.lexeme.namesOperator inName) rest := by
  rw [isCallable]
  dsimp only
  cases same : token.lexeme with
  | opening bracket | closing bracket =>
      rw [same] at part
      cases bracket with
      | angle =>
          have within : inName = true := part
          rw [within]
          rfl
      | round | curly => first | rfl | cases part
      | square => rfl
  | punctuation mark =>
      rw [same] at part
      cases mark with
      | equals =>
          have within : inName = true := part
          rw [within]
          rfl
      | semicolon => cases part
      | _ => rfl
  | _ => rfl

theorem Signature.splitName_of_namePart (part : token.lexeme.isNamePart inName) :
    splitName 0 inName (token :: rest) =
      (splitName 0 (token.lexeme.namesOperator inName) rest).map
        fun (name, call) => (token :: name, call) := by
  rw [splitName]
  dsimp only
  cases same : token.lexeme with
  | opening bracket | closing bracket =>
      rw [same] at part
      cases bracket with
      | angle =>
          have within : inName = true := part
          rw [within]
          rfl
      | round | curly => first | rfl | cases part
      | square => rfl
  | punctuation mark =>
      rw [same] at part
      cases mark with
      | semicolon => cases part
      | _ => rfl
  | _ => rfl

theorem Kind.isCallable_of_nameParts (parts : Lexeme.areNameParts inName (name.map Token.lexeme))
    (round : opening.lexeme = .opening .round) :
    isCallable 0 0 inName (name ++ opening :: rest) = true := by
  induction name generalizing inName with
  | nil => rw [List.nil_append, isCallable, round]; rfl
  | cons token name ih =>
      obtain ⟨part, parts⟩ := Bool.and_eq_true_iff.1 parts
      rw [List.cons_append, isCallable_of_namePart part]
      exact ih parts

theorem Signature.splitName_of_nameParts
    (parts : Lexeme.areNameParts inName (name.map Token.lexeme))
    (round : opening.lexeme = .opening .round) :
    splitName 0 inName (name ++ opening :: rest) = some (name, opening :: rest) := by
  induction name generalizing inName with
  | nil => rw [List.nil_append, splitName, round]; rfl
  | cons token name ih =>
      obtain ⟨part, parts⟩ := Bool.and_eq_true_iff.1 parts
      rw [List.cons_append, splitName_of_namePart part, ih parts]
      rfl

end

/-! ### Return types -/

/-- Words of a return type in front of its markers. -/
def Lexeme.isTypeWord : Lexeme → Bool
  | .keyword word => word.builtin?.isSome
  | .identifier _ | .punctuation .scope => true
  | _ => false

/-- The lexemes of a built-in or a named type. -/
inductive BaseType.Returned : BaseType → List Lexeme → Prop
  | builtin {base : BaseType} {word : Keyword} :
      word.builtin? = some base → Returned base [.keyword word]
  | modified {name : String} {words : List String} {more : List Lexeme} : name ∈ typeModifiers →
      more.map Lexeme.builtinWord? = words.map some →
      Returned (.named (" ".intercalate (name :: words))) (.identifier name :: more)
  | named {name : QualifiedName} : name.IsFree → Returned (.named name.text) name.lexemes

/-- The lexemes of such a type with markers behind it. -/
inductive CType.Returned : CType → List Lexeme → Prop
  | intro {base : BaseType} {words markers : List Lexeme} : base.Returned words →
      (∀ marker ∈ markers, marker.isMarker) →
      Returned ⟨base, Wrap.ofMarkers markers⟩ (words ++ markers)

theorem Lexeme.isTypeWord_of_builtinWord? {lexeme : Lexeme} {word : String}
    (builtin : lexeme.builtinWord? = some word) : lexeme.isTypeWord := by
  cases lexeme with
  | identifier name => rfl
  | keyword word => cases word <;> first | rfl | cases builtin
  | _ => cases builtin

theorem QualifiedName.areTypeWords (name : QualifiedName) :
    ∀ lexeme ∈ name.lexemes, lexeme.isTypeWord := by
  have further : ∀ parts, ∀ lexeme ∈ scopedLexemes parts, lexeme.isTypeWord := by
    intro parts
    induction parts with
    | nil => simp [scopedLexemes]
    | cons part parts ih => exact List.forall_mem_cons.2 ⟨rfl, List.forall_mem_cons.2 ⟨rfl, ih⟩⟩
  rw [lexemes]
  split
  · exact List.forall_mem_cons.2 ⟨rfl, List.forall_mem_cons.2 ⟨rfl, further _⟩⟩
  · exact List.forall_mem_cons.2 ⟨rfl, further _⟩

theorem BaseType.Returned.areTypeWords {base : BaseType} {words : List Lexeme}
    (returned : base.Returned words) : ∀ lexeme ∈ words, lexeme.isTypeWord := by
  cases returned with
  | builtin builtin => exact List.forall_mem_singleton.2 (Option.isSome_of_mem builtin)
  | @modified name words more _ builtin =>
      refine List.forall_mem_cons.2 ⟨rfl, fun lexeme mem => ?_⟩
      have word : lexeme.builtinWord? ∈ words.map some := builtin ▸ List.mem_map_of_mem mem
      obtain ⟨_, _, same⟩ := List.mem_map.1 word
      exact Lexeme.isTypeWord_of_builtinWord? same.symm
  | @named name _ => exact name.areTypeWords

/-- Tokens that may stand behind a return type. -/
def Token.BeginsName (tokens : List Token) : Prop :=
  ∃ token word rest, tokens = token :: rest ∧ token.lexeme = .identifier word ∧
    token.lexeme.builtinWord? = none

theorem BaseType.Returned.written {base : BaseType} {front markers rest : List Token}
    (returned : base.Returned (front.map Token.lexeme))
    (areMarkers : ∀ marker ∈ markers, marker.lexeme.isMarker) (begins : Token.BeginsName rest) :
    Written base front (markers ++ rest) := by
  obtain ⟨next, word, rest, rfl, isWord, noBuiltin⟩ := begins
  have ends : ∀ token ∈ (markers ++ next :: rest).head?, token.lexeme.builtinWord? = none ∧
      token.lexeme ≠ .punctuation .scope ∧ token.lexeme ≠ .opening .angle := by
    cases markers with
    | nil =>
        rintro _ ⟨⟩
        exact ⟨noBuiltin, by simp [isWord], by simp [isWord]⟩
    | cons marker markers =>
        rintro _ ⟨⟩
        obtain same | same | same := Lexeme.eq_of_isMarker (areMarkers marker List.mem_cons_self)
        all_goals rw [same]; exact ⟨rfl, nofun, nofun⟩
  generalize spelled : front.map Token.lexeme = lexemes at returned
  cases returned with
  | builtin builtin =>
      obtain ⟨token, rfl, same⟩ := List.map_eq_singleton_iff.1 spelled
      exact .builtin same builtin
  | @modified name words more modifier builtin =>
      obtain ⟨first, front, rfl, same, rfl⟩ := List.map_eq_cons_iff.1 spelled
      rw [List.map_map] at builtin
      exact .modified same modifier builtin fun token head => (ends token head).1
  | named free =>
      exact .named free spelled
        (Token.not_continuesName_of_head fun token head => (ends token head).2.1)
        fun token head => (ends token head).2.2

namespace CType.Returned

variable {type : CType} {front rest : List Token}

theorem read (returned : type.Returned (front.map Token.lexeme)) (begins : Token.BeginsName rest)
    (beyond : List Char) : CType.read beyond (front ++ rest) = .ok (type, rest) := by
  generalize spelled : front.map Token.lexeme = lexemes at returned
  obtain ⟨base, areMarkers⟩ := returned
  obtain ⟨words, markers, rfl, rfl, rfl⟩ := List.map_eq_append_iff.1 spelled
  have areMarkers : ∀ marker ∈ markers, marker.lexeme.isMarker :=
    fun marker mem => areMarkers _ (List.mem_map_of_mem mem)
  have ends : ∀ token ∈ rest.head?, token.lexeme.isMarker = false := by
    obtain ⟨next, word, rest, rfl, isWord, _⟩ := begins
    rintro _ ⟨⟩
    rw [isWord]
    rfl
  rw [List.append_assoc]
  exact CType.read_written .nil (base.written areMarkers begins) areMarkers ends

/-- A return type begins with a word that is no specifier. -/
theorem head (returned : type.Returned (front.map Token.lexeme)) : ∃ first more,
    front = first :: more ∧ first.lexeme.isTypeWord ∧ first.lexeme.isSpecifier = false := by
  generalize spelled : front.map Token.lexeme = lexemes at returned
  obtain ⟨base, _⟩ := returned
  obtain ⟨words, markers, rfl, rfl, rfl⟩ := List.map_eq_append_iff.1 spelled
  have begins : Token.BeginsName [⟨.identifier "", 0, []⟩] := ⟨_, _, _, rfl, rfl, by decide⟩
  have written := @BaseType.Returned.written _ _ [] _ base (by simp) begins
  obtain ⟨first, more, rfl, noSpecifier, _⟩ := written.head
  exact ⟨first, more ++ markers, rfl, base.areTypeWords _ List.mem_cons_self, noSpecifier⟩

theorem areSizeParts (returned : type.Returned (front.map Token.lexeme)) :
    ∀ token ∈ front, token.lexeme.isSizePart := by
  have words : ∀ lexeme : Lexeme, lexeme.isTypeWord → lexeme.isSizePart := by
    intro lexeme word
    cases lexeme with
    | punctuation mark => cases mark <;> first | rfl | cases word
    | opening _ | closing _ => cases word
    | _ => rfl
  intro token mem
  have listed : token.lexeme ∈ front.map Token.lexeme := List.mem_map_of_mem mem
  generalize front.map Token.lexeme = lexemes at returned listed
  obtain ⟨base, areMarkers⟩ := returned
  obtain word | marker := List.mem_append.1 listed
  · exact words _ (base.areTypeWords _ word)
  · exact Variable.isSizePart_of_isMarker (areMarkers _ marker)

end CType.Returned

/-! ### Functions -/

theorem Kind.ofOwner?_of_word {owner : String} {token : Token} {rest : List Token}
    (word : token.lexeme.isTypeWord) (noSpecifier : token.lexeme.isSpecifier = false)
    (named : reachesParenthesis rest = false) : ofOwner? owner (token :: rest) = none := by
  have noTilde : token.lexeme ≠ .punctuation .tilde := by
    intro tilde
    rw [tilde] at word
    cases word
  have passed : ¬token.lexeme.isFunctionSpecifier := by
    intro specifier
    have within : ∀ name ∈ functionSpecifiers, name ∈ typeSpecifiers := by decide
    cases same : token.lexeme with
    | identifier name =>
        rw [same] at specifier noSpecifier
        have mem := within name (List.contains_iff_mem.1 specifier)
        simp [Lexeme.isSpecifier, mem] at noSpecifier
    | _ =>
        rw [same] at specifier
        cases specifier
  rw [ofOwner?, Token.dropFunctionSpecifiers, List.dropWhile_cons, if_neg passed]
  dsimp only
  rw [named, Bool.and_false, if_neg Bool.false_ne_true, decide_eq_false noTilde, Bool.false_and,
    if_neg Bool.false_ne_true]

theorem Kind.ofKeyword?_of_word {token : Token} {rest : List Token}
    (word : token.lexeme.isTypeWord) : ofKeyword? (token :: rest) = none := by
  rw [ofKeyword?]
  split
  all_goals first
    | rfl
    | next same =>
        rw [same] at word
        cases word

/-- What is told about a function with a signature and the tokens behind its end. -/
def Answer.ofSignature (scope : Scope) (type : CType) (signature : Signature)
    (after : List Token) : Answer :=
  let outcome := signature.outcome scope (.returning type)
  ⟨outcome.declaration?, Note.omissions outcome.notes, Token.sourceOf? after⟩

/-- What is told about a function by its type, its name and the tokens from its parameters on. -/
inductive Function.Called (scope : Scope) (type : CType) (name : String) (call : List Token) :
    Answer → Prop
  | intro {enclosed : Enclosure} {parameters : List Parameter} {variadic : Bool}
      {after : List Token} : Enclosure.read scope.beyond call call = .ok enclosed →
      Parameter.readAll scope.beyond call.tail enclosed.inside = .ok (parameters, variadic) →
      dropEnding scope.beyond name enclosed.after = .ok after →
      Called scope type name call (.ofSignature scope type ⟨name, parameters, variadic⟩ after)

section

variable {scope : Scope} {inName : Bool} {type : CType} {front name rest : List Token}
  {opening : Token}

theorem Signature.read_of_name {beyond : List Char}
    (names : Lexeme.NamesFunction (name.map Token.lexeme))
    (round : opening.lexeme = .opening .round) {signature : Signature} {behind : List Token} :
    read beyond inName (name ++ opening :: rest) = .ok (signature, behind) ↔
      ∃ enclosed parameters variadic,
        Enclosure.read beyond (opening :: rest) (opening :: rest) = .ok enclosed ∧
        Parameter.readAll beyond rest enclosed.inside = .ok (parameters, variadic) ∧
        signature = ⟨Token.nameOf name, parameters, variadic⟩ ∧ behind = enclosed.after := by
  have some : name.isEmpty = false := by
    cases name with
    | nil => cases names
    | cons _ _ => rfl
  rw [read, splitName_of_nameParts (names.areNameParts inName) round]
  dsimp only
  rw [some, if_neg Bool.false_ne_true]
  constructor
  · intro found
    obtain ⟨enclosed, here, found⟩ := Except.bind_ok_iff.1 found
    obtain ⟨⟨parameters, variadic⟩, inside, done⟩ := Except.bind_ok_iff.1 found
    cases done
    exact ⟨enclosed, parameters, variadic, Enclosure.read_elsewhere _ here, inside, rfl, rfl⟩
  · rintro ⟨enclosed, parameters, variadic, here, inside, rfl, rfl⟩
    exact Except.bind_ok_iff.2
      ⟨enclosed, Enclosure.read_elsewhere _ here, Except.bind_ok_iff.2 ⟨_, inside, rfl⟩⟩

variable (returned : type.Returned (front.map Token.lexeme))
  (names : Lexeme.NamesFunction (name.map Token.lexeme)) (round : opening.lexeme = .opening .round)

include returned names round

theorem Item.kind?_of_returned (owner : Option String) :
    kind? owner false (front ++ (name ++ opening :: rest)) = some .function := by
  have parts := returned.areSizeParts
  have callable : Kind.isCallable 0 0 false (front ++ (name ++ opening :: rest)) = true := by
    obtain ⟨inName, same⟩ := @Declarator.isCallable_of_sizeParts front false
      (name ++ opening :: rest) parts
    rw [same]
    exact Kind.isCallable_of_nameParts (names.areNameParts inName) round
  have named : Kind.reachesParenthesis (name ++ opening :: rest) = false := by
    generalize spelled : name.map Token.lexeme = lexemes at names
    obtain ⟨_, _⟩ := names
    obtain ⟨word, symbols, rfl, isWord, _⟩ := List.map_eq_cons_iff.1 spelled
    rw [List.cons_append, Kind.reachesParenthesis, isWord]
  obtain ⟨first, more, rfl, word, noSpecifier⟩ := returned.head
  have noRound : ∀ token ∈ more, token.lexeme ≠ .opening .round := by
    intro token mem same
    have part := parts token (List.mem_cons_of_mem _ mem)
    rw [same] at part
    cases part
  have noSemicolon : first.lexeme.isSemicolon = false := by
    refine decide_eq_false fun same => ?_
    rw [same] at word
    cases word
  have unowned : (owner.bind fun owner =>
      Kind.ofOwner? owner (first :: (more ++ (name ++ opening :: rest)))) = none := by
    cases owner with
    | none => rfl
    | some owner =>
        exact Kind.ofOwner?_of_word word noSpecifier
          (Kind.reachesParenthesis_append noRound named)
  rw [List.cons_append] at callable ⊢
  rw [kind?_eq_of_unowned unowned (Kind.ofKeyword?_of_word word) noSemicolon, callable, if_pos rfl]

/-- A function tells the same behind any tokens of its type and of its name. -/
theorem Item.answer_of_returned {told : Answer} :
    answer scope false (front ++ (name ++ opening :: rest)) = .ok told ↔
      Function.Called scope type (Token.nameOf name) (opening :: rest) told := by
  have begins : Token.BeginsName (name ++ opening :: rest) := by
    generalize spelled : name.map Token.lexeme = lexemes at names
    obtain ⟨noBuiltin, _⟩ := names
    obtain ⟨word, symbols, rfl, isWord, _⟩ := List.map_eq_cons_iff.1 spelled
    exact ⟨word, _, _, rfl, isWord, by rw [isWord, noBuiltin]⟩
  have typed := returned.read begins scope.beyond
  have starts : kind? scope.owner false (front ++ (name ++ opening :: rest)) = some .function :=
    kind?_of_returned returned names round scope.owner
  rw [answer_eq_ok_iff_of_isPlain starts rfl]
  change (∃ outcome after, Function.read scope false _ = .ok (outcome, after) ∧ _) ↔ _
  constructor
  · rintro ⟨outcome, after, found, rfl⟩
    obtain ⟨type', call, signature, behind, typed', named, ended, rfl⟩ :=
      Function.read_ok_iff.1 found
    cases typed'.symm.trans typed
    obtain ⟨enclosed, parameters, variadic, here, inside, rfl, rfl⟩ :=
      (Signature.read_of_name names round).1 named
    exact .intro here inside ended
  · rintro ⟨here, inside, ended⟩
    refine ⟨_, _, Function.read_ok_iff.2 ⟨type, _, _, _, typed, ?_, ended, rfl⟩, rfl⟩
    exact (Signature.read_of_name names round).2 ⟨_, _, _, here, inside, rfl, rfl⟩

end

/-! ### Other names -/

/-- A function under another name. -/
def Declaration.renamed (name : String) : Declaration → Declaration
  | ofFunction function => ofFunction { function with name }
  | declaration => declaration

/-- What is told about a function, under another name. -/
def Answer.renamed (name : String) (told : Answer) : Answer :=
  ⟨told.declaration?.map (Declaration.renamed name),
    told.omissions.map fun omission => { omission with declaration := name }, told.rest?⟩

/-- A function is emitted, or it is omitted with one warning. -/
inductive Answer.IsFunction (type : CType) (name : String) (nested : Bool) : Answer → Prop
  | emitted {parameters : List Parameter} {rest? : Option (List Char)} : IsFunction type name nested
      ⟨some (.ofFunction ⟨.returning type, name, parameters, nested⟩), [], rest?⟩
  | omitted {reason : String} {rest? : Option (List Char)} :
      IsFunction type name nested ⟨none, [⟨name, reason⟩], rest?⟩

section

variable {scope : Scope} {type : CType} {name name' : String}
  {call after : List Token} {told : Answer}

theorem Answer.ofSignature_renamed (signature : Signature) (name : String) :
    ofSignature scope type { signature with name } after =
      (ofSignature scope type signature after).renamed name := by
  rw [ofSignature, ofSignature, Signature.outcome, Signature.outcome]
  dsimp only
  split
  · rfl
  · split <;> rfl

theorem Answer.isFunction_ofSignature (signature : Signature) :
    (ofSignature scope type signature after).IsFunction type signature.name scope.isNested := by
  rw [ofSignature, Signature.outcome]
  split
  · exact .omitted
  · split
    · exact .omitted
    · exact .emitted

/-- The name stands in errors only. -/
theorem Function.dropEnding_renamed {beyond : List Char} {tokens rest : List Token}
    (ended : dropEnding beyond name tokens = .ok rest) (name' : String) :
    dropEnding beyond name' tokens = .ok rest := by
  fun_induction dropEnding beyond name tokens with
  | case1 => cases ended
  | case2 token more semicolon => rwa [dropEnding_semicolon semicolon]
  | case3 token more curly => rwa [dropEnding_curly curly]
  | case4 token more round enclosed found ih =>
      rw [dropEnding_round round, found]
      exact ih ended
  | case5 => cases ended
  | case6 token more semicolon curly round ih =>
      rw [dropEnding_other semicolon curly round]
      exact ih ended

theorem Function.called_renamed_iff : Called scope type name' call told ↔
    ∃ found, Called scope type name call found ∧ told = found.renamed name' := by
  constructor
  · rintro ⟨here, inside, ended⟩
    exact ⟨_, .intro here inside (dropEnding_renamed ended name),
      Answer.ofSignature_renamed ⟨name, _, _⟩ name'⟩
  · rintro ⟨_, ⟨here, inside, ended⟩, rfl⟩
    rw [← Answer.ofSignature_renamed ⟨name, _, _⟩ name']
    exact .intro here inside (dropEnding_renamed ended name')

theorem Function.Called.isFunction (called : Called scope type name call told) :
    told.IsFunction type name scope.isNested := by
  obtain ⟨_, _, _⟩ := called
  exact Answer.isFunction_ofSignature ⟨name, _, _⟩

/-- What stands behind the parameters of a function is passed as the parameters are. -/
theorem Function.Called.dropEnding {opening : Token} {rest : List Token}
    (called : Called scope type name (opening :: rest) told)
    (round : opening.lexeme = .opening .round) (name' : String) : ∃ after,
      Function.dropEnding scope.beyond name' (opening :: rest) = .ok after ∧
        told.rest? = Token.sourceOf? after := by
  obtain ⟨here, _, ended⟩ := called
  refine ⟨_, ?_, rfl⟩
  rw [dropEnding_round round, here]
  exact dropEnding_renamed ended name'

/-- Behind an empty pair of parentheses everything is passed as an end is. -/
theorem Function.called_of_empty {opening closing : Token} {behind : List Token}
    (opens : opening.lexeme = .opening .round) (closes : closing.lexeme = .closing .round)
    (ended : dropEnding scope.beyond name behind = .ok after) :
    Called scope type name (opening :: closing :: behind)
      ⟨some (.ofFunction ⟨.returning type, name, [], scope.isNested⟩), [],
        Token.sourceOf? after⟩ := by
  have closed : Enclosure.close? .round 0 (closing :: behind) = some ⟨[], closing, behind⟩ := by
    simp [Enclosure.close?, closes]
  exact .intro (Enclosure.read_of_close? opens closed) rfl ended

end

/-! ### Texts -/

/-- The symbols that may stand behind `operator`, but for the call. -/
def operatorSymbols : List String :=
  ["+", "-", "*", "/", "%", "^", "&", "|", "~", "!", "=", "<", ">", "+=", "-=", "*=", "/=", "%=",
    "^=", "&=", "|=", "<<", ">>", "<<=", ">>=", "==", "!=", "<=", ">=", "<=>", "&&", "||", "++",
    "--", ",", "->*", "->", "[]"]

/-- A declaration of a function from its type to its parameters. -/
def Text.declares (returned : List Char) (name : String) (parameters : List Char) : List Char :=
  returned ++ ' ' :: (name.toList ++ parameters)

theorem Token.textOf_of_endsBare {tokens : List Token} (bare : endsBare tokens) :
    textOf tokens = sourceOf tokens := by
  induction tokens with
  | nil => cases bare
  | cons token rest ih =>
      obtain ⟨rfl, none⟩ | ⟨some, bare⟩ := endsBare_cons bare
      · simp [textOf, sourceOf, none]
      · rw [textOf_cons some, ih bare]
        rfl

theorem Lexed.exists_round {tail : List Char} {lexed : Lexed}
    (found : ofText ('(' :: tail) = .ok lexed) : ∃ opening rest,
      lexed.tokens = opening :: rest ∧ opening.lexeme = .opening .round := by
  obtain ⟨tokens, read, rfl⟩ := Except.map_ok_iff.1 found
  have gap : Text.splitGap ('(' :: tail) = ([], '(' :: tail) :=
    Text.splitGap_other (by decide) (by decide) (by simp)
  have plain : Text.startsWith Delimiter.comment.opening ('(' :: tail) = false := by
    simp [Text.startsWith, Text.after?, Delimiter.opening]
  rw [gap, Token.readFrom_of_read? plain (by rfl) rfl] at read
  obtain ⟨rest, _, rfl⟩ := Except.map_ok_iff.1 read
  exact ⟨_, rest, rfl, rfl⟩

namespace Parser

variable {owner : Option String} {returned tail : List Char} {name : String} {type : CType}
  {lexed lexedCall : Lexed} {names : List Token} {told : Answer}

theorem answer_declares (lexes : Lexed.ofText returned = .ok lexed)
    (bare : Token.endsBare lexed.tokens) (returns : type.Returned (lexed.tokens.map Token.lexeme))
    (lexesName : Lexed.ofText name.toList = .ok ⟨[], names⟩) (bareName : Token.endsBare names)
    (named : Lexeme.NamesFunction (names.map Token.lexeme))
    (lexesCall : Lexed.ofText ('(' :: tail) = .ok lexedCall) :
    answer owner (Text.declares returned name ('(' :: tail)) = .ok told ↔
      Function.Called (Scope.ofOwner owner) type name lexedCall.tokens told := by
  obtain ⟨_, later, lexesBehind, fitsName, moved⟩ :=
    Lexed.ofText_append_bare lexesName bareName (by rfl) (by simp) (by simp) lexesCall
  obtain ⟨middle, rfl, fitsMiddle⟩ := fitsName.exists_append
  obtain ⟨_, behind, whole, fits, movedBehind⟩ :=
    Lexed.ofText_append_blank lexes bare lexesBehind
  obtain ⟨front, rfl, fitsFront⟩ := fits.exists_append
  obtain ⟨middle', later', rfl, movedName, movedCall⟩ := movedBehind.exists_split
  have spelled : Token.nameOf middle' = name := by
    have fits := movedName.fits []
    rw [List.append_nil] at fits
    have source : Token.sourceOf names = name.toList := Token.source_of_ofText lexesName
    rw [fits.nameOf, fitsMiddle.nameOf, Token.nameOf, Token.textOf_of_endsBare bareName, source,
      String.ofList_toList]
  have named' : Lexeme.NamesFunction (middle'.map Token.lexeme) := by
    rwa [movedName.map_lexeme, fitsMiddle.map_lexeme]
  have returns' : type.Returned (front.map Token.lexeme) := by
    rwa [fitsFront.map_lexeme]
  obtain ⟨opening, rest, call, round⟩ := Lexed.exists_round lexesCall
  have areRead := Lexed.areRead_of_ofText whole
  have movedAll : Token.Moved (front ++ (middle' ++ later'))
      (front ++ (middle' ++ lexedCall.tokens)) := by
    have same := movedCall.trans moved
    rw [Token.Moved, List.map_append, List.map_append, List.map_append, List.map_append, same]
  have same := @Item.answer_moved (Scope.ofOwner owner) false _ _ areRead movedAll
    (beyond_ofOwner owner)
  have placed : Item.answer (Scope.ofOwner owner) false (front ++ (middle' ++ later')) = .ok told ↔
      Item.answer (Scope.ofOwner owner) false (front ++ (middle' ++ lexedCall.tokens)) =
        .ok told :=
    ⟨Except.eq_ok_of_mapError same, Except.eq_ok_of_mapError same.symm⟩
  rw [Text.declares, answer_of_ofText whole, placed, call,
    Item.answer_of_returned returns' named' round, spelled]

/-- The same for a word with symbols behind it. -/
theorem answer_named {word symbols : String} (lexes : Lexed.ofText returned = .ok lexed)
    (bare : Token.endsBare lexed.tokens) (returns : type.Returned (lexed.tokens.map Token.lexeme))
    (isName : Lexeme.isName word) (noBuiltin : (Lexeme.identifier word).builtinWord? = none)
    (isSymbols : Text.isSymbols symbols.toList)
    (parts : Lexeme.areNameParts (word = "operator") (symbols.toList.map Lexeme.ofChar))
    (lexesCall : Lexed.ofText ('(' :: tail) = .ok lexedCall) :
    answer owner (Text.declares returned (word ++ symbols) ('(' :: tail)) = .ok told ↔
      Function.Called (Scope.ofOwner owner) type (word ++ symbols) lexedCall.tokens told := by
  obtain ⟨names, lexesName, spelled, bareName⟩ := Lexed.ofText_symbols isName isSymbols
  have named : Lexeme.NamesFunction (names.map Token.lexeme) := by
    rw [spelled]
    exact .intro noBuiltin parts
  rw [← String.toList_append] at lexesName
  exact answer_declares lexes bare returns lexesName bareName named lexesCall

/-- Where a function is read, the call operator is read without its parameters. -/
theorem answer_empty_call (lexes : Lexed.ofText returned = .ok lexed)
    (bare : Token.endsBare lexed.tokens) (returns : type.Returned (lexed.tokens.map Token.lexeme))
    (lexesCall : Lexed.ofText ('(' :: tail) = .ok lexedCall)
    (called : Function.Called (Scope.ofOwner owner) type name lexedCall.tokens told) :
    answer owner (Text.declares returned "operator()" ('(' :: tail)) =
      .ok ⟨some (.ofFunction ⟨.returning type, "operator", [], (Scope.ofOwner owner).isNested⟩), [],
        told.rest?⟩ := by
  obtain ⟨opening, rest, call, round⟩ := Lexed.exists_round lexesCall
  rw [call] at called
  obtain ⟨after, ended, left⟩ := called.dropEnding round "operator"
  have lexesPair : Lexed.ofText ['(', ')'] =
      .ok ⟨[], [⟨.opening .round, 0, []⟩, ⟨.closing .round, 1, []⟩]⟩ := by cbv
  obtain ⟨_, later, lexesCall', fits, moved⟩ :=
    Lexed.ofText_append_bare lexesPair rfl (by rfl) (by simp) (by simp) lexesCall
  obtain _ | ⟨opens, _, _ | ⟨closes, _, ⟨⟩⟩⟩ := fits
  rw [call] at moved
  obtain ⟨after', ended', movedAfter⟩ := Function.endsAlike_moved [] moved ended
  rw [left, ← movedAfter.sourceOf?_eq]
  -- The empty pair is part of what stands behind the word.
  refine (@answer_named owner _ _ _ _ _ _ "operator" "" lexes bare returns (by decide) (by decide)
    rfl rfl lexesCall').2 ?_
  exact Function.called_of_empty opens closes (by rwa [beyond_ofOwner])

/-- With an operator's symbol in its name a function is told as with any other name, and the symbol
is part of its name. The parentheses of the call operator are taken for its parameters instead. -/
theorem answer_operator (lexes : Lexed.ofText returned = .ok lexed)
    (bare : Token.endsBare lexed.tokens) (returns : type.Returned (lexed.tokens.map Token.lexeme))
    (isName : Lexeme.isName name) (noBuiltin : (Lexeme.identifier name).builtinWord? = none)
    (lexesCall : Lexed.ofText ('(' :: tail) = .ok lexedCall) :
    (∀ symbol ∈ operatorSymbols, ∀ told,
      answer owner (Text.declares returned ("operator" ++ symbol) ('(' :: tail)) = .ok told ↔
        ∃ found, answer owner (Text.declares returned name ('(' :: tail)) = .ok found ∧
          told = found.renamed ("operator" ++ symbol)) ∧
    ∀ found, answer owner (Text.declares returned name ('(' :: tail)) = .ok found →
      found.IsFunction type name owner.isSome ∧
        answer owner (Text.declares returned "operator()" ('(' :: tail)) =
          .ok ⟨some (.ofFunction ⟨.returning type, "operator", [], owner.isSome⟩), [],
            found.rest?⟩ := by
  have nested : (Scope.ofOwner owner).isNested = owner.isSome := by
    cases owner <;> rfl
  have called : ∀ found, answer owner (Text.declares returned name ('(' :: tail)) = .ok found ↔
      Function.Called (Scope.ofOwner owner) type name lexedCall.tokens found := by
    intro found
    have called := @answer_named owner _ _ _ _ _ found name "" lexes bare returns isName noBuiltin
      rfl rfl lexesCall
    rwa [String.append_empty] at called
  constructor
  · intro symbol mem told
    have symbols : ∀ symbol ∈ operatorSymbols, Text.isSymbols symbol.toList ∧
        Lexeme.areNameParts true (symbol.toList.map Lexeme.ofChar) := by decide
    obtain ⟨isSymbols, parts⟩ := symbols symbol mem
    have calledOperator := @answer_named owner _ _ _ _ _ told "operator" symbol lexes bare returns
      (by decide) (by decide) isSymbols parts lexesCall
    rw [calledOperator, @Function.called_renamed_iff _ _ name]
    simp only [called]
  · intro found told
    have function := (called found).1 told
    rw [← nested]
    exact ⟨function.isFunction, answer_empty_call lexes bare returns lexesCall function⟩

theorem answer_operator_arrow :
    let returning : FunctionKind := .returning ⟨.named "Vec", [.star]⟩
    let parameters : List Parameter := [⟨⟨.int, []⟩, "x"⟩]
    answer none "Vec * f(int x);".toList =
        .ok ⟨some (.ofFunction ⟨returning, "f", parameters, false⟩), [], none⟩ ∧
      answer none "Vec * operator->*(int x);".toList =
        .ok ⟨some (.ofFunction ⟨returning, "operator->*", parameters, false⟩), [], none⟩ ∧
      answer none "Vec * operator()(int x);".toList =
        .ok ⟨some (.ofFunction ⟨returning, "operator", [], false⟩), [], none⟩ := by
  intro returning parameters
  let signature : Signature := ⟨"f", parameters, false⟩
  let returned : List Token := [⟨.identifier "Vec", 0, [' ']⟩, ⟨.punctuation .star, 4, []⟩]
  let call : List Token := [⟨.opening .round, 0, []⟩, ⟨.keyword .int, 1, [' ']⟩,
    ⟨.identifier "x", 5, []⟩, ⟨.closing .round, 6, []⟩, ⟨.punctuation .semicolon, 7, []⟩]
  let named : List Token := [⟨.identifier "f", 6, []⟩, ⟨.opening .round, 7, []⟩,
    ⟨.keyword .int, 8, [' ']⟩, ⟨.identifier "x", 12, []⟩, ⟨.closing .round, 13, []⟩,
    ⟨.punctuation .semicolon, 14, []⟩]
  let whole : List Token :=
    ⟨.identifier "Vec", 0, [' ']⟩ :: ⟨.punctuation .star, 4, [' ']⟩ :: named
  have lexes : Lexed.ofText "Vec *".toList = .ok ⟨[], returned⟩ := by cbv
  have lexesCall : Lexed.ofText ('(' :: "int x);".toList) = .ok ⟨[], call⟩ := by cbv
  have lexesWhole : Lexed.ofText "Vec * f(int x);".toList = .ok ⟨[], whole⟩ := by cbv
  have returns : CType.Returned ⟨.named "Vec", [.star]⟩ (returned.map Token.lexeme) := by
    have base : BaseType.Returned (.named "Vec") [.identifier "Vec"] :=
      @BaseType.Returned.named ⟨false, "Vec", []⟩ fun _ => by decide
    exact @CType.Returned.intro _ _ [.punctuation .star] base (by decide)
  have found : answer none "Vec * f(int x);".toList =
      .ok ⟨some (.ofFunction ⟨returning, "f", parameters, false⟩), [], none⟩ := by
    have read : Signature.read [] false named = .ok (signature, named.drop 5) := by rfl
    rw [answer_of_ofText lexesWhole]
    exact Item.answer_declared .top whole named ⟨.named "Vec", [.star]⟩ (by rfl) (by rfl) read rfl
  have told := @answer_operator none _ _ "f" _ _ _ lexes rfl returns (by decide) (by decide)
    lexesCall
  refine ⟨found, ?_, (told.2 _ found).2⟩
  exact (told.1 "->*" (by decide) _).2 ⟨_, found, rfl⟩

/-- The name of the call operator is not kept, and its parameters are lost. -/
theorem answer_call_operator :
    answer none "int f(int x);".toList = .ok
        ⟨some (.ofFunction ⟨.returning ⟨.int, []⟩, "f", [⟨⟨.int, []⟩, "x"⟩], false⟩), [], none⟩ ∧
      answer none "int operator()(int x);".toList = .ok
        ⟨some (.ofFunction ⟨.returning ⟨.int, []⟩, "operator", [], false⟩), [], none⟩ := by
  constructor
  · let signature : Signature := ⟨"f", [⟨⟨.int, []⟩, "x"⟩], false⟩
    let named : List Token := [⟨.identifier "f", 4, []⟩, ⟨.opening .round, 5, []⟩,
      ⟨.keyword .int, 6, [' ']⟩, ⟨.identifier "x", 10, []⟩, ⟨.closing .round, 11, []⟩,
      ⟨.punctuation .semicolon, 12, []⟩]
    have lexes : Lexed.ofText "int f(int x);".toList =
        .ok ⟨[], ⟨.keyword .int, 0, [' ']⟩ :: named⟩ := by cbv
    have read : Signature.read [] false named = .ok (signature, named.drop 5) := by rfl
    rw [answer_of_ofText lexes]
    exact Item.answer_declared .top _ named ⟨.int, []⟩ (by rfl) (by rfl) read rfl
  · let signature : Signature := ⟨"operator", [], false⟩
    let named : List Token := [⟨.identifier "operator", 4, []⟩, ⟨.opening .round, 12, []⟩,
      ⟨.closing .round, 13, []⟩, ⟨.opening .round, 14, []⟩, ⟨.keyword .int, 15, [' ']⟩,
      ⟨.identifier "x", 19, []⟩, ⟨.closing .round, 20, []⟩, ⟨.punctuation .semicolon, 21, []⟩]
    have lexes : Lexed.ofText "int operator()(int x);".toList =
        .ok ⟨[], ⟨.keyword .int, 0, [' ']⟩ :: named⟩ := by cbv
    have starts : Item.kind? none false (⟨.keyword .int, 0, [' ']⟩ :: named) = some .function := by
      rfl
    have typed : CType.read [] (⟨.keyword .int, 0, [' ']⟩ :: named) = .ok (⟨.int, []⟩, named) := by
      rfl
    have read : Signature.read [] false named = .ok (signature, named.drop 3) := by rfl
    have ended : Function.dropEnding [] "operator" (named.drop 3) = .ok [] :=
      (Function.dropEnding_round rfl).trans (Function.dropEnding_semicolon rfl)
    have whole : Item.readPlain .top false .function (⟨.keyword .int, 0, [' ']⟩ :: named) =
        .ok (signature.outcome .top (.returning ⟨.int, []⟩), []) :=
      Function.read_ok_iff.2 ⟨_, _, signature, _, typed, read, ended, rfl⟩
    have told : Item.answer .top false (⟨.keyword .int, 0, [' ']⟩ :: named) = .ok
        ⟨some (.ofFunction ⟨.returning ⟨.int, []⟩, "operator", [], false⟩), [], none⟩ :=
      (Item.answer_eq_ok_iff_of_isPlain starts rfl).2 ⟨_, _, whole, rfl⟩
    rw [answer_of_ofText lexes]
    exact told

end Parser

end PxdStub
