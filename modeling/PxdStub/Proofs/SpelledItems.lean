import PxdStub.Proofs.SpelledTypes

/-!
Variables and parameters are read back from their lexemes.
-/

namespace PxdStub

variable {front rest : List Token}

/-! ### Quiet lexemes -/

/-- Lexemes that decide nothing: none of them opens or closes a parenthesis or a brace, begins or ends
an item, or belongs to an operator's name. -/
def Lexeme.isQuiet : Lexeme → Bool
  | identifier name => isPlainName name
  | number _ => true
  | keyword .void | keyword .int | keyword .double | keyword .structKey => true
  | opening .angle | closing .angle | opening .square | closing .square => true
  | punctuation .scope | punctuation .comma | punctuation .star | punctuation .ampersand => true
  | _ => false

theorem Lexeme.isQuiet_of_startsName {lexeme : Lexeme} (starts : lexeme.startsName) :
    lexeme.isQuiet := by
  cases lexeme with
  | punctuation mark => cases mark <;> first | rfl | cases starts
  | identifier => exact starts
  | _ => cases starts

theorem Lexeme.not_semicolon_of_isQuiet {lexeme : Lexeme} (quiet : lexeme.isQuiet) :
    lexeme.isSemicolon = false := by
  rw [isSemicolon, decide_eq_false_iff_not]
  rintro rfl
  cases quiet

theorem QualifiedName.startsName_of_mem {name : QualifiedName} (plain : name.IsPlain)
    {lexeme : Lexeme} (mem : lexeme ∈ name.lexemes) : lexeme.startsName := by
  have ofMore : ∀ more : List String, (∀ part ∈ more, Lexeme.isPlainName part) →
      ∀ lexeme ∈ scopedLexemes more, lexeme.startsName := by
    intro more plain
    induction more with
    | nil => simp [scopedLexemes]
    | cons part more ih =>
        refine List.forall_mem_cons.2 ⟨rfl, List.forall_mem_cons.2 ⟨?_, ?_⟩⟩
        · exact plain part List.mem_cons_self
        · exact ih fun part mem => plain part (List.mem_cons_of_mem _ mem)
  have later := ofMore name.more fun part mem => plain part (List.mem_cons_of_mem _ mem)
  rw [lexemes] at mem
  split at mem
  · obtain rfl | mem := List.mem_cons.1 mem
    · rfl
    · obtain rfl | mem := List.mem_cons.1 mem
      · exact plain name.first List.mem_cons_self
      · exact later lexeme mem
  · obtain rfl | mem := List.mem_cons.1 mem
    · exact plain name.first List.mem_cons_self
    · exact later lexeme mem

theorem Wrap.eq_of_mem_lexemes {wraps : List Wrap} {lexeme : Lexeme}
    (mem : lexeme ∈ wraps.flatMap lexemes) :
    lexeme = .punctuation .star ∨ lexeme = .punctuation .ampersand := by
  obtain ⟨wrap, _, marker⟩ := List.mem_flatMap.1 mem
  cases wrap with
  | star => exact Or.inl (List.mem_singleton.1 marker)
  | reference => exact Or.inr (List.mem_singleton.1 marker)
  | array | unsized => cases marker

theorem Lexeme.mem_brackets {inside : List Lexeme} {dimensions : Nat} {lexeme : Lexeme}
    (mem : lexeme ∈ brackets inside dimensions) :
    lexeme = .opening .square ∨ lexeme ∈ inside ∨ lexeme = .closing .square := by
  obtain ⟨pair, among, within⟩ := List.mem_flatten.1 mem
  rw [List.eq_of_mem_replicate among] at within
  simpa using within

theorem Lexeme.isQuiet_ofWord {word : String} (isWord : isArgumentWord word) :
    (ofWord word).isQuiet := by
  simp only [isArgumentWord, Bool.or_eq_true, decide_eq_true_eq] at isWord
  obtain (rfl | rfl) | plain := isWord
  · rfl
  · rfl
  · rw [ofWord_of_isName (isName_of_isPlainName plain)]
    exact plain

theorem BaseType.isQuiet_of_mem {base : BaseType} (wellFormed : base.IsWellFormed)
    {lexeme : Lexeme} (mem : lexeme ∈ base.lexemes) : lexeme.isQuiet := by
  have named : ∀ name, IsQualified name → lexeme ∈ Text.lexemes name.toList → lexeme.isQuiet := by
    rintro _ ⟨parts, plain, rfl⟩ mem
    rw [(QualifiedName.spells plain).lexemes_eq] at mem
    exact Lexeme.isQuiet_of_startsName (QualifiedName.startsName_of_mem plain mem)
  unfold lexemes at mem
  cases base with
  | void | int | double =>
      rw [List.mem_singleton.1 mem]
      rfl
  | named name => exact named name wellFormed mem
  | tagged name =>
      obtain rfl | mem := List.mem_cons.1 mem
      · rfl
      · exact named name wellFormed mem
  | generic name arguments =>
      obtain mem | mem := List.mem_append.1 mem
      · exact named name wellFormed.1 mem
      · obtain rfl | mem := List.mem_cons.1 mem
        · rfl
        · obtain mem | mem := List.mem_append.1 mem
          · obtain rfl | ⟨_, among, within⟩ := Lexeme.mem_listed mem
            · rfl
            · obtain ⟨word, mem, rfl⟩ := List.mem_map.1 among
              rw [List.mem_singleton.1 within]
              exact Lexeme.isQuiet_ofWord (wellFormed.2 word mem)
          · rw [List.mem_singleton.1 mem]
            rfl

theorem CType.isQuiet_of_mem {type : CType} (wellFormed : type.base.IsWellFormed)
    {lexeme : Lexeme} (mem : lexeme ∈ type.lexemes) : lexeme.isQuiet := by
  obtain base | wraps := List.mem_append.1 mem
  · exact BaseType.isQuiet_of_mem wellFormed base
  · obtain rfl | rfl := Wrap.eq_of_mem_lexemes wraps <;> rfl

theorem Lexeme.isQuiet_of_mem_brackets {inside : List Lexeme} {dimensions : Nat} {lexeme : Lexeme}
    (quiet : ∀ lexeme ∈ inside, lexeme.isQuiet) (mem : lexeme ∈ brackets inside dimensions) :
    lexeme.isQuiet := by
  obtain rfl | within | rfl := mem_brackets mem
  · rfl
  · exact quiet lexeme within
  · rfl

theorem Lexeme.isQuiet_of_mem_listed {groups : List (List Lexeme)} {lexeme : Lexeme}
    (quiet : ∀ group ∈ groups, ∀ lexeme ∈ group, lexeme.isQuiet) (mem : lexeme ∈ listed groups) :
    lexeme.isQuiet := by
  obtain rfl | ⟨group, among, within⟩ := mem_listed mem
  · rfl
  · exact quiet group among lexeme within

/-! ### Declarators -/

theorem Lexeme.listed_cons (lexeme : Lexeme) (group : List Lexeme) (more : List (List Lexeme)) :
    ∃ rest, listed ((lexeme :: group) :: more) = lexeme :: rest := by
  rw [listed]
  cases more with
  | nil => exact ⟨_, List.intercalate_singleton⟩
  | cons next more =>
      rw [List.intercalate_cons_cons]
      exact ⟨_, rfl⟩

theorem Lexeme.countP_brackets {inside : List Lexeme} {counts : Lexeme → Bool}
    (none : inside.countP counts = 0) (one : [opening .square, closing .square].countP counts = 1)
    (dimensions : Nat) : (brackets inside dimensions).countP counts = dimensions := by
  induction dimensions with
  | zero => rfl
  | succ dimensions ih =>
      rw [brackets, List.replicate_succ, List.flatten_cons]
      rw [brackets] at ih
      simp only [List.countP_append, List.countP_cons, List.countP_nil, none, ih] at one ⊢
      omega

theorem Token.beforeInitializer_of_plain {tokens : List Token}
    (plain : ∀ token ∈ tokens, token.lexeme ≠ .punctuation .equals) :
    beforeInitializer tokens = tokens := by
  rw [beforeInitializer, List.takeWhile_eq_self_iff]
  intro token mem
  simpa using plain token mem

theorem Variable.isGroup_declarator (dimensions : Nat) (name : List Char) :
    Lexeme.IsGroup (declarator dimensions name) :=
  ⟨[.identifier (String.ofList name)], [.number "1"], dimensions, rfl, by simp [Lexeme.isLevel],
    by simp [Lexeme.isLevel]⟩

namespace Declarator

theorem ofGroup?_declarator {group : List Token} {dimensions : Nat} {name : List Char}
    (same : group.map Token.lexeme = Variable.declarator dimensions name) :
    ofGroup? group = some ⟨String.ofList name, dimensions⟩ := by
  have plain : ∀ token ∈ group, token.lexeme ≠ .punctuation .equals := by
    intro token mem equals
    have among : token.lexeme ∈ group.map Token.lexeme := List.mem_map_of_mem mem
    rw [same, equals] at among
    obtain none | among := List.mem_cons.1 among
    · cases none
    · have cases' := Lexeme.mem_brackets among
      simp at cases'
  have count : (group.countP fun token => token.lexeme = .closing .square) = dimensions := by
    rw [Token.countP_eq group fun lexeme => lexeme = .closing .square, same, Variable.declarator,
      List.countP_cons, Lexeme.countP_brackets rfl rfl]
    rfl
  have named : Token.firstName? group = some (String.ofList name) := by
    obtain ⟨token, more, rfl, named, _⟩ := List.map_eq_cons_iff.1 same
    rw [Token.firstName?, List.findSome?_cons, named]
    rfl
  rw [ofGroup?, Token.beforeInitializer_of_plain plain, named, count]
  rfl

theorem readGroups_declarators {groups : List (List Token)} {dimensions : Nat}
    {names : List (List Char)} (tokens : List Token)
    (same : groups.map (List.map Token.lexeme) = names.map (Variable.declarator dimensions)) :
    readGroups tokens groups =
      .ok (names.map fun name => ⟨String.ofList name, dimensions⟩) := by
  induction groups generalizing names tokens with
  | nil =>
      rw [List.map_nil] at same
      rw [List.map_eq_nil_iff.1 same.symm]
      rfl
  | cons group more ih =>
      obtain ⟨name, names, rfl, first, later⟩ := List.map_eq_cons_iff.1 same.symm
      rw [readGroups, ofGroup?_declarator first.symm]
      dsimp only
      rw [ih _ later.symm]
      rfl

end Declarator

/-! ### Variables -/

namespace Variable

variable {declared : Variable}

/-- The wraps that stand in front of the name, and the dimensions behind it. -/
theorem IsWellFormed.split {nested : Bool} (wellFormed : declared.IsWellFormed nested) :
    ∃ markers, Wrap.AreMarkers markers ∧
      declared.type.lexemes = (CType.mk declared.type.base markers).lexemes ∧
      declared.type.wraps = markers ++
        if declared.type.dimensions = 0 then [] else [.array declared.type.dimensions] := by
  obtain ⟨markers, arrays, wraps, areMarkers, none | ⟨dimensions, positive, some⟩⟩ :=
    wellFormed.wrapped
  · refine ⟨markers, areMarkers, ?_, ?_⟩
    · rw [CType.lexemes, CType.lexemes, wraps, none, List.append_nil]
    · have last : declared.type.dimensions = 0 := by
        rw [CType.dimensions, wraps, none, List.append_nil]
        split
        · next dimensions found =>
            have indirect := areMarkers.indirect _ (List.mem_of_getLast? found)
            cases indirect
        · rfl
      rw [if_pos last, wraps, none]
  · refine ⟨markers, areMarkers, ?_, ?_⟩
    · rw [CType.lexemes, CType.lexemes, wraps, some, List.flatMap_append]
      simp [Wrap.lexemes]
    · have last : declared.type.dimensions = dimensions := by
        rw [CType.dimensions, wraps, some, List.getLast?_concat]
      rw [last, if_neg (by omega), wraps, some]

theorem isGroup_of_mem_declarators {dimensions : Nat} {names : List (List Char)} :
    ∀ group ∈ names.map (declarator dimensions), Lexeme.IsGroup group := by
  intro group mem
  obtain ⟨name, _, rfl⟩ := List.mem_map.1 mem
  exact isGroup_declarator dimensions name

theorem exists_name_of_declarators {dimensions : Nat} {names : List (List Char)}
    {tokens : List Token} (some : names ≠ [])
    (listed : tokens.map Token.lexeme = Lexeme.listed (names.map (declarator dimensions))) :
    ∃ token behind name, tokens = token :: behind ∧ token.lexeme = .identifier name := by
  obtain ⟨name, names, rfl⟩ := List.exists_cons_of_ne_nil some
  obtain ⟨later, head⟩ := Lexeme.listed_cons (.identifier (String.ofList name))
    (Lexeme.brackets [.number "1"] dimensions) (names.map (declarator dimensions))
  obtain ⟨token, behind, rfl, named, _⟩ := List.map_eq_cons_iff.1 (listed.trans head)
  exact ⟨token, behind, _, rfl, named⟩

theorem isQuiet_of_mem_declarators {dimensions : Nat} {names : List String}
    (plain : ∀ name ∈ names, Lexeme.isPlainName name) {lexeme : Lexeme}
    (mem : lexeme ∈ Lexeme.listed ((names.map String.toList).map (declarator dimensions))) :
    lexeme.isQuiet := by
  refine Lexeme.isQuiet_of_mem_listed ?_ mem
  intro group among lexeme mem
  rw [List.map_map] at among
  obtain ⟨name, isName, rfl⟩ := List.mem_map.1 among
  obtain rfl | mem := List.mem_cons.1 mem
  · have same : (Lexeme.identifier (String.ofList name.toList)) = .identifier name := by
      rw [String.ofList_toList]
    rw [same]
    exact plain name isName
  · refine Lexeme.isQuiet_of_mem_brackets ?_ mem
    intro lexeme mem
    rw [List.mem_singleton.1 mem]
    rfl

theorem isPlaceholder_of_builtin {base : BaseType} (builtin : base.isBuiltin)
    {markers : List Wrap} {typed rest declared : List Token}
    (same : typed.map Token.lexeme = (CType.mk base markers).lexemes) :
    isPlaceholder (typed ++ rest) declared ⟨base, markers⟩ = false := by
  cases base with
  | void | int | double =>
      obtain ⟨token, behind, rfl, word, _⟩ := List.map_eq_cons_iff.1 same
      simp [isPlaceholder, word]
  | named | tagged | generic => cases builtin

theorem outcome_of_builtin (builtin : declared.type.base.isBuiltin) :
    declared.outcome = .emitted (.ofVariable declared) := by
  unfold outcome
  cases base : declared.type.base with
  | void | int | double => rfl
  | named | tagged | generic =>
      rw [base] at builtin
      cases builtin

/-- The declarators of a well-formed variable agree. -/
theorem ofDeclarators_eq {scope : Scope} {markers : List Wrap} {text : String} {names : List String}
    (nested : declared.nested = scope.isNested) (some : names ≠ [])
    (joined : declared.name = ", ".intercalate names)
    (wraps : declared.type.wraps = markers ++
      if declared.type.dimensions = 0 then [] else [.array declared.type.dimensions]) :
    ofDeclarators scope ⟨declared.type.base, markers⟩ text
      ((names.map String.toList).map fun name =>
        ⟨String.ofList name, declared.type.dimensions⟩) = .ok declared := by
  obtain ⟨name, names, rfl⟩ := List.exists_cons_of_ne_nil some
  have areNames : (names.map fun name =>
      (⟨String.ofList name.toList, declared.type.dimensions⟩ : Declarator)).map Declarator.name =
        names := by
    rw [List.map_map]
    exact (List.map_congr_left fun name _ => String.ofList_toList).trans (List.map_id names)
  have whole : ofDeclarators scope ⟨declared.type.base, markers⟩ text
      (⟨String.ofList name.toList, declared.type.dimensions⟩ ::
        names.map fun name => ⟨String.ofList name.toList, declared.type.dimensions⟩) =
      .ok ⟨⟨declared.type.base, declared.type.wraps⟩, declared.name, declared.nested⟩ := by
    rw [ofDeclarators, if_pos (by simp), List.map_cons, areNames]
    dsimp only
    rw [String.ofList_toList, ← joined, ← wraps, ← nested]
  rw [List.map_map]
  exact whole

theorem read_append {scope : Scope} (wellFormed : declared.IsWellFormed scope.isNested)
    (same : front.map Token.lexeme = declared.lexemes) :
    read scope (front ++ rest) = .ok (.emitted (.ofVariable declared), rest) := by
  obtain ⟨names, some, plain, joined, areNames⟩ := wellFormed.names_eq
  obtain ⟨markers, areMarkers, sameType, wraps⟩ := wellFormed.split
  rw [lexemes, sameType, areNames] at same
  obtain ⟨typed, more, rfl, typeSame, same⟩ := List.map_eq_append_iff.1 same
  obtain ⟨declarators, more, rfl, listed, same⟩ := List.map_eq_append_iff.1 same
  obtain ⟨semicolon, more, rfl, ends, none⟩ := List.map_eq_cons_iff.1 same
  rw [List.map_eq_nil_iff.1 none]
  have whole : typed ++ (declarators ++ [semicolon]) ++ rest =
      typed ++ (declarators ++ semicolon :: rest) := by simp
  have groups := Token.groupsAt_listed (by simpa using some) isGroup_of_mem_declarators listed
  obtain ⟨token, behind, name, starts, named⟩ :=
    exists_name_of_declarators (by simpa using some) listed
  have typeRead := @CType.read_append ⟨declared.type.base, markers⟩ typed
    (declarators ++ semicolon :: rest) scope.beyond (isWellFormed_base wellFormed) areMarkers
    typeSame (fun token head => by
      rw [starts] at head
      cases head
      rw [named]
      rfl)
  have split : Token.splitOutside Lexeme.isSemicolon 0 (declarators ++ semicolon :: rest) =
      (declarators, semicolon :: rest) :=
    Token.splitOutside_of_stop (fun token mem => Lexeme.not_semicolon_of_isQuiet
        (isQuiet_of_mem_declarators plain (listed ▸ List.mem_map_of_mem mem)))
      (Token.counts_nesting.foldl_listed isGroup_of_mem_declarators listed 0) (by rw [ends]; rfl)
  have nonempty : declarators.isEmpty = false := by
    rw [starts]
    rfl
  rw [whole, read, typeRead]
  dsimp only [Bind.bind, Except.bind]
  rw [split, isPlaceholder_of_builtin wellFormed.builtin typeSame]
  dsimp only
  rw [Token.groups, nonempty, if_neg (by simp), if_neg (by simp), if_neg (by simp),
    Declarator.readGroups_declarators _ groups]
  dsimp only
  rw [ofDeclarators_eq wellFormed.nested_eq some joined wraps, Token.dropSemicolon,
    if_pos (by rw [ends]; rfl)]
  dsimp only [Failure.standing, Except.mapError]
  rw [outcome_of_builtin wellFormed.builtin]
  rfl

end Variable

/-! ### Parameters -/

theorem CType.isLevel_of_passable {type : CType} (passable : type.base.isPassable)
    (wellFormed : type.base.IsWellFormed) : ∀ lexeme ∈ type.lexemes, lexeme.isLevel := by
  intro lexeme mem
  obtain base | wraps := List.mem_append.1 mem
  · cases same : type.base with
    | void | int | double =>
        rw [same] at base
        rw [List.mem_singleton.1 base]
        rfl
    | named name =>
        rw [same] at wellFormed base
        obtain ⟨parts, plain, rfl⟩ := wellFormed
        have within : lexeme ∈ parts.lexemes := by
          rw [← (QualifiedName.spells plain).lexemes_eq]
          exact base
        have starts := QualifiedName.startsName_of_mem plain within
        cases lexeme with
        | opening | closing => cases starts
        | punctuation mark => cases mark <;> first | rfl | cases starts
        | _ => rfl
    | tagged | generic =>
        rw [same] at passable
        cases passable
  · obtain rfl | rfl := Wrap.eq_of_mem_lexemes wraps <;> rfl

namespace Parameter

variable {parameter : Parameter}

theorem isQuiet_of_mem (wellFormed : parameter.IsWellFormed) {lexeme : Lexeme}
    (mem : lexeme ∈ parameter.lexemes) : lexeme.isQuiet := by
  obtain typed | mem := List.mem_append.1 mem
  · exact CType.isQuiet_of_mem wellFormed.base typed
  · obtain named | brackets := List.mem_append.1 mem
    · obtain none | plain := wellFormed.named
      · rw [nameLexemes, if_pos none] at named
        cases named
      · have some := Lexeme.ne_empty_of_isName (Lexeme.isName_of_isPlainName plain)
        rw [nameLexemes, if_neg some] at named
        rw [List.mem_singleton.1 named]
        exact plain
    · exact Lexeme.isQuiet_of_mem_brackets (by simp) brackets

theorem isGroup_lexemes (wellFormed : parameter.IsWellFormed) :
    Lexeme.IsGroup parameter.lexemes := by
  refine ⟨parameter.type.lexemes ++ parameter.nameLexemes, [],
    parameter.type.wraps.count .unsized, ?_, ?_, by simp⟩
  · rw [lexemes, List.append_assoc]
  · intro lexeme mem
    obtain typed | named := List.mem_append.1 mem
    · exact CType.isLevel_of_passable wellFormed.passable wellFormed.base lexeme typed
    · rw [nameLexemes] at named
      split at named
      · cases named
      · rw [List.mem_singleton.1 named]
        rfl

theorem IsWellFormed.split (wellFormed : parameter.IsWellFormed) :
    ∃ markers, Wrap.AreMarkers markers ∧
      parameter.type.lexemes = (CType.mk parameter.type.base markers).lexemes ∧
      parameter.type.wraps =
        markers ++ List.replicate (parameter.type.wraps.count .unsized) .unsized := by
  obtain ⟨markers, dimensions, wraps, areMarkers⟩ := wellFormed.wrapped
  have none : markers.count .unsized = 0 := by
    rw [List.count_eq_zero]
    intro mem
    cases areMarkers.indirect _ mem
  refine ⟨markers, areMarkers, ?_, ?_⟩
  · rw [CType.lexemes, CType.lexemes, wraps, List.flatMap_append]
    have unspelled : (List.replicate dimensions Wrap.unsized).flatMap Wrap.lexemes = [] := by
      simp [Wrap.lexemes]
    rw [unspelled, List.append_nil]
  · have count : parameter.type.wraps.count .unsized = dimensions := by
      rw [wraps, List.count_append, none, List.count_replicate_self, Nat.zero_add]
    rw [count, wraps]

theorem no_equals_of_declared {declared : List Token} {dimensions : Nat}
    (same : declared.map Token.lexeme = parameter.nameLexemes ++ Lexeme.brackets [] dimensions) :
    ∀ token ∈ declared, token.lexeme ≠ .punctuation .equals := by
  intro token mem equals
  have among : token.lexeme ∈ declared.map Token.lexeme := List.mem_map_of_mem mem
  rw [same, equals, nameLexemes] at among
  obtain named | among := List.mem_append.1 among
  · split at named <;> simp at named
  · have bracket := Lexeme.mem_brackets among
    simp at bracket

theorem followsType_of_declared {declared : List Token} {last : Token} {dimensions : Nat}
    (same : declared.map Token.lexeme = parameter.nameLexemes ++ Lexeme.brackets [] dimensions)
    (ends : last.lexeme = .punctuation .comma ∨ last.lexeme = .closing .round) :
    ∀ token ∈ (declared ++ last :: rest).head?, token.lexeme.followsType := by
  intro token head
  rw [nameLexemes] at same
  split at same
  · cases dimensions with
    | zero =>
        rw [List.map_eq_nil_iff.1 same] at head
        cases head
        obtain comma | closing := ends
        · rw [comma]
          rfl
        · rw [closing]
          rfl
    | succ dimensions =>
        obtain ⟨first, more, rfl, opening, _⟩ := List.map_eq_cons_iff.1 same
        cases head
        rw [opening]
        rfl
  · obtain ⟨first, more, rfl, named, _⟩ := List.map_eq_cons_iff.1 same
    cases head
    rw [named]
    rfl

theorem firstName?_of_declared {declared : List Token} {dimensions : Nat}
    (same : declared.map Token.lexeme = parameter.nameLexemes ++ Lexeme.brackets [] dimensions) :
    (Token.firstName? declared).getD "" = parameter.name := by
  have none : (Lexeme.brackets [] dimensions).findSome? Lexeme.identifier? = none := by
    rw [List.findSome?_eq_none_iff]
    intro lexeme mem
    obtain rfl | inside | rfl := Lexeme.mem_brackets mem
    · rfl
    · cases inside
    · rfl
  rw [Token.firstName?_eq, same, List.findSome?_append, none, nameLexemes]
  split
  · next unnamed => exact unnamed.symm
  · rfl

theorem countP_of_declared {declared : List Token} {dimensions : Nat}
    (same : declared.map Token.lexeme = parameter.nameLexemes ++ Lexeme.brackets [] dimensions) :
    (declared.countP fun token => token.lexeme = .opening .square) = dimensions := by
  rw [Token.countP_eq declared fun lexeme => lexeme = .opening .square, same, List.countP_append,
    Lexeme.countP_brackets rfl rfl, nameLexemes]
  split
  · exact Nat.zero_add dimensions
  · exact Nat.zero_add dimensions

theorem read_append {beyond : List Char} {group : List Token} {last : Token}
    (wellFormed : parameter.IsWellFormed) (same : group.map Token.lexeme = parameter.lexemes)
    (ends : last.lexeme = .punctuation .comma ∨ last.lexeme = .closing .round) :
    read beyond (group ++ last :: rest) group = .ok parameter := by
  obtain ⟨markers, areMarkers, sameType, wraps⟩ := wellFormed.split
  rw [lexemes, sameType] at same
  obtain ⟨typed, declared, rfl, typeSame, same⟩ := List.map_eq_append_iff.1 same
  have typeRead := @CType.read_append ⟨parameter.type.base, markers⟩ typed
    (declared ++ last :: rest) beyond wellFormed.base areMarkers typeSame
    (followsType_of_declared same ends)
  have behind : (typed ++ declared ++ last :: rest).length - (typed ++ declared).length =
      (last :: rest).length := by
    rw [List.length_append]
    omega
  have inside : (declared ++ last :: rest).length - (last :: rest).length = declared.length := by
    rw [List.length_append]
    omega
  rw [read, List.append_assoc, typeRead]
  dsimp only [Bind.bind, Except.bind]
  rw [← List.append_assoc, behind, if_neg, inside, List.take_left,
    Token.beforeInitializer_of_plain (no_equals_of_declared same), firstName?_of_declared same,
    countP_of_declared same, ← wraps]
  · rfl
  · rw [List.length_append]
    omega

theorem exists_head (wellFormed : parameter.IsWellFormed) :
    ∃ lexeme more, parameter.lexemes = lexeme :: more ∧ lexeme.startsType := by
  obtain ⟨lexeme, more, head, starts⟩ := BaseType.exists_head wellFormed.base
  exact ⟨lexeme, _, congrArg (· ++ _ ++ _) head, starts⟩

theorem readGroups_cons {beyond : List Char} {group : List Token} {last : Token}
    {groups : List (List Token)} {later : List Parameter} (wellFormed : parameter.IsWellFormed)
    (same : group.map Token.lexeme = parameter.lexemes)
    (ends : last.lexeme = .punctuation .comma ∨ last.lexeme = .closing .round)
    (behind : readGroups beyond rest groups = .ok (later, false)) :
    readGroups beyond (group ++ last :: rest) (group :: groups) =
      .ok (parameter :: later, false) := by
  have found := @read_append rest _ beyond _ _ wellFormed same ends
  have drop : (group ++ last :: rest).drop (group.length + 1) = rest := by
    rw [List.append_cons]
    exact List.drop_left' (by simp)
  obtain ⟨lexeme, more, head, starts⟩ := exists_head wellFormed
  rw [head] at same
  obtain ⟨token, inside, rfl, rfl, _⟩ := List.map_eq_cons_iff.1 same
  have ellipsis : token.lexeme ≠ .punctuation .ellipsis := by
    intro none
    rw [none] at starts
    cases starts
  rw [readGroups.eq_def]
  dsimp only
  rw [drop, if_neg ellipsis, found]
  dsimp only [Bind.bind, Except.bind]
  rw [behind]
  rfl

theorem readGroups_listed {beyond : List Char} {parameters : List Parameter}
    {inside : List Token} {close : Token} (some : parameters ≠ [])
    (wellFormed : ∀ parameter ∈ parameters, parameter.IsWellFormed)
    (same : inside.map Token.lexeme = Lexeme.listed (parameters.map lexemes))
    (closes : close.lexeme = .closing .round) :
    readGroups beyond (inside ++ close :: rest) (Token.groupsAt 0 inside) =
      .ok (parameters, false) := by
  rw [Lexeme.listed] at same
  induction parameters generalizing inside with
  | nil => exact absurd rfl some
  | cons parameter more ih =>
      have here := wellFormed parameter List.mem_cons_self
      cases more with
      | nil =>
          rw [List.map_singleton, List.intercalate_singleton] at same
          rw [Token.groupsAt_of_isGroup (by rw [same]; exact isGroup_lexemes here)]
          exact readGroups_cons here same (Or.inr closes) rfl
      | cons next more =>
          rw [List.map_cons, List.map_cons, List.intercalate_cons_cons, List.append_assoc] at same
          obtain ⟨group, behind, rfl, first, same⟩ := List.map_eq_append_iff.1 same
          obtain ⟨comma, behind, rfl, comma', same⟩ := List.map_eq_cons_iff.1 same
          have later := ih (List.cons_ne_nil _ _)
            (fun parameter mem => wellFormed parameter (List.mem_cons_of_mem _ mem)) same
          rw [Token.groupsAt_append_of_isGroup (by rw [first]; exact isGroup_lexemes here) comma',
            List.append_assoc, List.cons_append]
          exact readGroups_cons here first (Or.inl comma') later

theorem base_eq_void (wellFormed : parameter.IsWellFormed) {more : List Lexeme}
    (void : parameter.type.base.lexemes = .keyword .void :: more) :
    parameter.type.base = .void := by
  have base := wellFormed.base
  have passable := wellFormed.passable
  cases same : parameter.type.base with
  | void => rfl
  | named name =>
      rw [same] at base void
      obtain ⟨parts, plain, rfl⟩ := base
      obtain ⟨lexeme, more, head, starts⟩ := QualifiedName.exists_head plain
      have first := (QualifiedName.spells plain).lexemes_eq.symm.trans void
      rw [head] at first
      cases first
      cases starts
  | int | double =>
      rw [same] at void
      cases void
  | tagged | generic =>
      rw [same] at passable
      cases passable

/-- A single `void` is spelled by the parameter that is of type `void` and has no name only. -/
theorem eq_of_void {parameters : List Parameter}
    (wellFormed : ∀ parameter ∈ parameters, parameter.IsWellFormed)
    (void : Lexeme.listed (parameters.map lexemes) = [.keyword .void]) :
    parameters = [⟨⟨.void, []⟩, ""⟩] := by
  rw [Lexeme.listed] at void
  obtain _ | ⟨parameter, _ | ⟨next, more⟩⟩ := parameters
  · cases void
  · have here := wellFormed parameter List.mem_cons_self
    obtain ⟨lexeme, more, head, _⟩ := BaseType.exists_head here.base
    obtain ⟨markers, areMarkers, sameType, wraps⟩ := here.split
    rw [List.map_singleton, List.intercalate_singleton, lexemes, sameType, CType.lexemes, head,
      List.cons_append, List.cons_append, List.cons.injEq, List.append_eq_nil_iff,
      List.append_eq_nil_iff, List.append_eq_nil_iff] at void
    obtain ⟨rfl, ⟨_, noMarkers⟩, unnamed, noBrackets⟩ := void
    have base := base_eq_void here head
    have none : markers = [] := by
      cases markers with
      | nil => rfl
      | cons marker markers =>
          have indirect := areMarkers.indirect marker List.mem_cons_self
          cases marker with
          | star | reference => cases noMarkers
          | array | unsized => cases indirect
    have count : parameter.type.wraps.count .unsized = 0 := by
      cases count : parameter.type.wraps.count .unsized with
      | zero => rfl
      | succ dimensions =>
          rw [count] at noBrackets
          cases noBrackets
    have name : parameter.name = "" := by
      rw [nameLexemes] at unnamed
      split at unnamed
      · assumption
      · cases unnamed
    rw [none, count] at wraps
    obtain ⟨⟨base', wraps'⟩, name'⟩ := parameter
    dsimp only at base wraps name
    rw [base, wraps, name]
    rfl
  · rw [List.map_cons, List.map_cons, List.intercalate_cons_cons, List.append_assoc] at void
    have mem : Lexeme.punctuation .comma ∈ [Lexeme.keyword .void] := by
      rw [← void]
      simp
    simp at mem

theorem readAll_listed {beyond : List Char} {parameters : List Parameter}
    {inside : List Token} {close : Token}
    (wellFormed : ∀ parameter ∈ parameters, parameter.IsWellFormed)
    (no_void : parameters ≠ [⟨⟨.void, []⟩, ""⟩])
    (same : inside.map Token.lexeme = Lexeme.listed (parameters.map lexemes))
    (closes : close.lexeme = .closing .round) :
    readAll beyond (inside ++ close :: rest) inside = .ok (parameters, false) := by
  rw [readAll, if_neg]
  · by_cases none : parameters = []
    · rw [none] at same ⊢
      rw [List.map_eq_nil_iff.1 same]
      rfl
    · have nonempty : inside ≠ [] := by
        rintro rfl
        obtain ⟨first, more, rfl⟩ := List.exists_cons_of_ne_nil none
        obtain ⟨lexeme, behind, head, _⟩ := exists_head (wellFormed first List.mem_cons_self)
        obtain ⟨later, whole⟩ := Lexeme.listed_cons lexeme behind (more.map lexemes)
        rw [List.map_cons, head, whole] at same
        cases same
      rw [Token.groups, if_neg (by simpa using nonempty)]
      exact readGroups_listed none wellFormed same closes
  · intro void
    exact no_void (eq_of_void wellFormed (same.symm.trans void))

end Parameter

end PxdStub
