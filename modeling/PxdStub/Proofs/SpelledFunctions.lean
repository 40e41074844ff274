import PxdStub.Proofs.SpelledItems

/-!
Functions are read back from their lexemes. Up to its parameters a function is spelled by lexemes that
decide nothing, and so is a variable up to its semicolon.
-/

namespace PxdStub

variable {front rest : List Token}

theorem Lexeme.ne_operator_of_isPlainName {word : String} (plain : isPlainName word) :
    word ≠ "operator" := by
  simp only [isPlainName, Bool.and_eq_true, bne_iff_ne] at plain
  exact plain.2

theorem Lexeme.not_functionSpecifier_of_isPlainName {word : String} (plain : isPlainName word) :
    (identifier word).isFunctionSpecifier = false := by
  simp only [isPlainName, Bool.and_eq_true, Bool.not_eq_true', List.contains_eq_mem,
    decide_eq_false_iff_not] at plain
  have typeSpecifier := plain.1.1.2
  rw [isFunctionSpecifier, List.contains_eq_mem, decide_eq_false_iff_not]
  intro mem
  have within : functionSpecifiers ⊆ typeSpecifiers := by decide
  exact typeSpecifier (within mem)

theorem Token.namesOperator_of_quiet {tokens : List Token}
    (quiet : ∀ token ∈ tokens, token.lexeme.isQuiet) : namesOperator false tokens = false := by
  induction tokens with
  | nil => rfl
  | cons token rest ih =>
      have here := quiet token List.mem_cons_self
      have step : token.lexeme.namesOperator false = false := by
        cases same : token.lexeme with
        | identifier name =>
            rw [same] at here
            exact decide_eq_false (Lexeme.ne_operator_of_isPlainName here)
        | opening bracket | closing bracket => cases bracket <;> rfl
        | punctuation mark => cases mark <;> rfl
        | _ => rfl
      have later := ih fun token mem => quiet token (List.mem_cons_of_mem _ mem)
      change namesOperator (token.lexeme.namesOperator false) rest = false
      rw [step, later]

namespace Function

variable {declared : Function} {owner : Option String}

theorem isQuiet_of_mem_parameters (wellFormed : declared.IsWellFormed owner) {lexeme : Lexeme}
    (mem : lexeme ∈ Lexeme.listed (declared.parameters.map Parameter.lexemes)) :
    lexeme.isQuiet := by
  refine Lexeme.isQuiet_of_mem_listed ?_ mem
  intro group among lexeme mem
  obtain ⟨parameter, declares, rfl⟩ := List.mem_map.1 among
  exact Parameter.isQuiet_of_mem (wellFormed.parameters parameter declares) mem

theorem signature_append {beyond : List Char} (wellFormed : declared.IsWellFormed owner)
    (same : front.map Token.lexeme = declared.callLexemes) :
    ∃ semicolon, semicolon.lexeme = .punctuation .semicolon ∧
      Signature.read beyond false (front ++ rest) =
        .ok (⟨declared.name, declared.parameters, false⟩, semicolon :: rest) := by
  obtain ⟨name, more, rfl, named, same⟩ := List.map_eq_cons_iff.1 same
  obtain ⟨opening, more, rfl, opens, same⟩ := List.map_eq_cons_iff.1 same
  obtain ⟨inside, more, rfl, listed, same⟩ := List.map_eq_append_iff.1 same
  obtain ⟨close, more, rfl, closes, same⟩ := List.map_eq_cons_iff.1 same
  obtain ⟨semicolon, more, rfl, ends, none⟩ := List.map_eq_cons_iff.1 same
  rw [List.map_eq_nil_iff.1 none]
  refine ⟨semicolon, ends, ?_⟩
  have plain : ∀ token ∈ inside,
      token.lexeme ≠ .opening .round ∧ token.lexeme ≠ .closing .round := by
    intro token mem
    have quiet := isQuiet_of_mem_parameters wellFormed (listed ▸ List.mem_map_of_mem mem)
    constructor
    · intro opens
      rw [opens] at quiet
      cases quiet
    · intro closes
      rw [closes] at quiet
      cases quiet
  have parameters := @Parameter.readAll_listed (semicolon :: rest) beyond _ _ close
    wellFormed.parameters wellFormed.no_void listed closes
  have whole : name :: opening :: (inside ++ [close, semicolon]) ++ rest =
      name :: opening :: (inside ++ close :: semicolon :: rest) := by simp
  have split : Signature.splitName 0 false
      (name :: opening :: (inside ++ close :: semicolon :: rest)) =
        some ([name], opening :: (inside ++ close :: semicolon :: rest)) := by
    rw [Signature.splitName.eq_def]
    simp only [named]
    rw [Signature.splitName.eq_def]
    simp only [opens]
    rfl
  have word : Token.nameOf [name] = declared.name := by
    rw [Token.nameOf, Token.textOf, named]
    exact String.ofList_toList
  rw [whole, Signature.read, split]
  dsimp only [Bind.bind, Except.bind]
  rw [if_neg (by simp), Enclosure.read_append beyond opens plain closes]
  dsimp only [List.tail_cons]
  rw [parameters]
  dsimp only
  rw [word]
  rfl

theorem outcome_of_passable {scope : Scope} (wellFormed : declared.IsWellFormed owner)
    (nested : scope.isNested = owner.isSome) :
    Signature.outcome scope declared.kind ⟨declared.name, declared.parameters, false⟩ =
      .emitted (.ofFunction declared) := by
  have supported : declared.parameters.findSome? Signature.unsupported? = none := by
    rw [List.findSome?_eq_none_iff]
    intro parameter mem
    have passable := (wellFormed.parameters parameter mem).passable
    unfold Signature.unsupported?
    cases same : parameter.type.base with
    | void | int | double | named => rfl
    | tagged | generic =>
        rw [same] at passable
        cases passable
  rw [Signature.outcome, if_neg (by simp), supported, nested, ← wellFormed.nested_eq]

theorem read_append {scope : Scope} {type : CType} (wellFormed : declared.IsWellFormed owner)
    (nested : scope.isNested = owner.isSome) (kind : declared.kind = .returning type)
    (same : front.map Token.lexeme = declared.lexemes) :
    read scope false (front ++ rest) = .ok (.emitted (.ofFunction declared), rest) := by
  have typed := wellFormed.kind
  rw [kind] at typed
  unfold lexemes at same
  rw [kind] at same
  obtain ⟨front, call, rfl, typeSame, callSame⟩ := List.map_eq_append_iff.1 same
  obtain ⟨semicolon, ends, signature⟩ :=
    @signature_append call rest declared owner scope.beyond wellFormed callSame
  have typeRead := @CType.read_append type front (call ++ rest) scope.beyond typed.1 typed.2
    typeSame (fun token head => by
      obtain ⟨name, more, rfl, named, _⟩ := List.map_eq_cons_iff.1 callSame
      cases head
      rw [named]
      rfl)
  have before : Token.before (front ++ (call ++ rest)) (call ++ rest) = front := by
    rw [Token.before, List.length_append, Nat.add_sub_cancel, List.take_left]
  have outside : Token.namesOperator false front = false :=
    Token.namesOperator_of_quiet fun token mem =>
      CType.isQuiet_of_mem typed.1 (typeSame ▸ List.mem_map_of_mem mem)
  rw [List.append_assoc, read, typeRead]
  dsimp only [Bind.bind, Except.bind]
  rw [before, outside, signature]
  dsimp only
  rw [dropEnding_semicolon ends]
  dsimp only
  rw [← kind, outcome_of_passable wellFormed nested]
  rfl

theorem readConstructor_append {scope : Scope} (wellFormed : declared.IsWellFormed scope.owner)
    (nested : scope.isNested = scope.owner.isSome) (kind : declared.kind = .constructor)
    (same : front.map Token.lexeme = declared.lexemes) :
    readConstructor scope (front ++ rest) = .ok (.emitted (.ofFunction declared), rest) := by
  have owner := wellFormed.kind
  rw [kind] at owner
  unfold lexemes at same
  rw [kind] at same
  obtain ⟨semicolon, ends, signature⟩ :=
    @signature_append front rest declared scope.owner scope.beyond wellFormed same
  obtain ⟨name, more, rfl, named, _⟩ := List.map_eq_cons_iff.1 same
  have dropped : Token.dropFunctionSpecifiers (name :: more ++ rest) = name :: more ++ rest := by
    have plain := Lexeme.not_functionSpecifier_of_isPlainName wellFormed.named
    rw [List.cons_append, Token.dropFunctionSpecifiers, List.dropWhile_cons, named,
      if_neg (by simp [plain])]
  have same : declared.name = scope.owner.getD "" := by
    rw [owner]
    rfl
  rw [readConstructor, dropped, signature]
  dsimp only [Bind.bind, Except.bind]
  rw [if_neg (by simp [same])]
  rw [dropEnding_semicolon ends]
  dsimp only
  rw [← kind, outcome_of_passable wellFormed nested]
  rfl

end Function

end PxdStub
