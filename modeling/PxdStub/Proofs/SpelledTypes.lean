import PxdStub.Proofs.DeclarationLexemes
import PxdStub.Proofs.Derivation

/-!
Scans of spelled tokens, and types: a type is read back from its lexemes when nothing comes behind it
that could go on with it.
-/

namespace PxdStub

/-! ### Scans -/

theorem Enclosure.close?_append {bracket : Bracket} {inside after : List Token} {close : Token}
    (plain : ∀ token ∈ inside, token.lexeme ≠ .opening bracket ∧ token.lexeme ≠ .closing bracket)
    (closes : close.lexeme = .closing bracket) :
    close? bracket 0 (inside ++ close :: after) = some ⟨inside, close, after⟩ := by
  induction inside with
  | nil =>
      rw [List.nil_append, close?]
      simp [closes]
  | cons token inside ih =>
      have here := plain token List.mem_cons_self
      have later := ih fun token mem => plain token (List.mem_cons_of_mem _ mem)
      rw [List.cons_append, close?]
      simp [here.1, here.2, later]

theorem Enclosure.read_append {bracket : Bracket} {place inside after : List Token}
    {opening close : Token} (beyond : List Char) (opens : opening.lexeme = .opening bracket)
    (plain : ∀ token ∈ inside, token.lexeme ≠ .opening bracket ∧ token.lexeme ≠ .closing bracket)
    (closes : close.lexeme = .closing bracket) :
    read beyond place (opening :: (inside ++ close :: after)) = .ok ⟨inside, close, after⟩ :=
  read_of_close? opens (close?_append plain closes)

namespace Token

theorem splitOutside_of_stop {stop : Lexeme → Bool} {front rest : List Token} {last : Token}
    {depth : Nat} (plain : ∀ token ∈ front, stop token.lexeme = false)
    (level : front.foldl nesting depth = 0) (stops : stop last.lexeme) :
    splitOutside stop depth (front ++ last :: rest) = (front, last :: rest) := by
  induction front generalizing depth with
  | nil =>
      rw [List.foldl_nil] at level
      simp [splitOutside, level, stops]
  | cons token front ih =>
      have here := plain token List.mem_cons_self
      have later := ih (fun token mem => plain token (List.mem_cons_of_mem _ mem)) level
      rw [List.cons_append, splitOutside]
      simp [here, later]

theorem groupsAt_of_plain {front : List Token} {depth : Nat}
    (plain : ∀ token ∈ front, token.lexeme ≠ .punctuation .comma) :
    groupsAt depth front = [front] := by
  induction front generalizing depth with
  | nil => rfl
  | cons token front ih =>
      have here := plain token List.mem_cons_self
      have later := @ih (angledNesting depth token)
        fun token mem => plain token (List.mem_cons_of_mem _ mem)
      rw [groupsAt, later]
      simp [here]

theorem groupsAt_append_comma {front rest : List Token} {comma : Token} {depth : Nat}
    (plain : ∀ token ∈ front, token.lexeme ≠ .punctuation .comma)
    (level : front.foldl angledNesting depth = 0) (comma' : comma.lexeme = .punctuation .comma) :
    groupsAt depth (front ++ comma :: rest) = front :: groupsAt 0 rest := by
  induction front generalizing depth with
  | nil =>
      rw [List.foldl_nil] at level
      rw [List.nil_append, groupsAt]
      simp [level, comma']
  | cons token front ih =>
      have here := plain token List.mem_cons_self
      have later := ih (fun token mem => plain token (List.mem_cons_of_mem _ mem)) level
      rw [List.cons_append, groupsAt, later]
      simp [here]

end Token

/-! ### Groups -/

namespace Lexeme

/-- Lexemes that leave the depth of brackets as it is and end no group. -/
def isLevel : Lexeme → Bool
  | opening _ | closing _ | punctuation .comma => false
  | _ => true

/-- Words with pairs of brackets behind them. -/
def IsGroup (lexemes : List Lexeme) : Prop :=
  ∃ words inside dimensions, lexemes = words ++ brackets inside dimensions ∧
    (∀ lexeme ∈ words, lexeme.isLevel) ∧ ∀ lexeme ∈ inside, lexeme.isLevel

end Lexeme

theorem Lexeme.IsGroup.no_comma {lexemes : List Lexeme} (isGroup : IsGroup lexemes) :
    .punctuation .comma ∉ lexemes := by
  obtain ⟨words, inside, dimensions, rfl, level, level'⟩ := isGroup
  have plain : ∀ lexeme : Lexeme, lexeme.isLevel → lexeme ≠ .punctuation .comma := by
    rintro _ level rfl
    cases level
  rw [List.mem_append, not_or]
  refine ⟨fun mem => plain _ (level _ mem) rfl, ?_⟩
  intro mem
  obtain ⟨pair, within, mem⟩ := List.mem_flatten.1 mem
  rw [List.eq_of_mem_replicate within] at mem
  simp only [List.cons_append, List.mem_cons, List.mem_append, List.not_mem_nil, or_false,
    reduceCtorEq, false_or] at mem
  exact plain _ (level' _ mem) rfl

namespace Token

theorem not_comma_of_isGroup {tokens : List Token} (isGroup : Lexeme.IsGroup (tokens.map lexeme)) :
    ∀ token ∈ tokens, token.lexeme ≠ .punctuation .comma := by
  intro token mem same
  exact isGroup.no_comma (List.mem_map.2 ⟨token, mem, same⟩)

/-- A way to count open brackets, as far as groups are concerned. -/
structure Counts (step : Nat → Token → Nat) : Prop where
  level : ∀ depth token, token.lexeme.isLevel → step depth token = depth
  opens : ∀ depth token, token.lexeme = .opening .square → step depth token = depth + 1
  closes : ∀ depth token, token.lexeme = .closing .square → step depth token = depth - 1
  comma : ∀ depth token, token.lexeme = .punctuation .comma → step depth token = depth

theorem counts_nesting : Counts nesting := by
  constructor
  · intro depth token level
    unfold nesting
    cases same : token.lexeme <;> rw [same] at level <;> first | rfl | cases level
  · intro depth token same
    simp only [nesting, same]
  · intro depth token same
    simp only [nesting, same]
  · intro depth token same
    simp only [nesting, same]

theorem counts_angledNesting : Counts angledNesting := by
  constructor
  · intro depth token level
    unfold angledNesting
    cases same : token.lexeme <;> rw [same] at level <;> first | rfl | cases level
  · intro depth token same
    simp only [angledNesting, same]
  · intro depth token same
    simp only [angledNesting, same]
  · intro depth token same
    simp only [angledNesting, same]

variable {step : Nat → Token → Nat} {tokens : List Token}

theorem Counts.foldl_level (counts : Counts step) (level : ∀ token ∈ tokens, token.lexeme.isLevel)
    (depth : Nat) : tokens.foldl step depth = depth := by
  induction tokens with
  | nil => rfl
  | cons token rest ih =>
      rw [List.foldl_cons, counts.level depth token (level token List.mem_cons_self)]
      exact ih fun token mem => level token (List.mem_cons_of_mem _ mem)

theorem Counts.foldl_brackets {inside : List Lexeme} {dimensions : Nat} (counts : Counts step)
    (level : ∀ lexeme ∈ inside, lexeme.isLevel)
    (same : tokens.map lexeme = Lexeme.brackets inside dimensions) (depth : Nat) :
    tokens.foldl step depth = depth := by
  induction dimensions generalizing tokens with
  | zero =>
      rw [List.map_eq_nil_iff.1 same]
      rfl
  | succ dimensions ih =>
      rw [Lexeme.brackets, List.replicate_succ, List.flatten_cons, List.cons_append,
        List.cons_append, List.append_assoc] at same
      obtain ⟨opening, rest, rfl, opens, same⟩ := List.map_eq_cons_iff.1 same
      obtain ⟨front, rest, rfl, within, same⟩ := List.map_eq_append_iff.1 same
      obtain ⟨closing, rest, rfl, shuts, same⟩ := List.map_eq_cons_iff.1 same
      have inner := counts.foldl_level (fun token mem => level _ (within ▸ List.mem_map_of_mem mem))
        (depth + 1)
      rw [List.foldl_cons, List.foldl_append, List.foldl_cons, counts.opens _ _ opens, inner,
        counts.closes _ _ shuts]
      exact ih same

theorem Counts.foldl_group (counts : Counts step) (isGroup : Lexeme.IsGroup (tokens.map lexeme))
    (depth : Nat) : tokens.foldl step depth = depth := by
  obtain ⟨words, inside, dimensions, same, level, level'⟩ := isGroup
  obtain ⟨front, rest, rfl, within, behind⟩ := List.map_eq_append_iff.1 same
  rw [List.foldl_append, counts.foldl_brackets level' behind]
  exact counts.foldl_level (fun token mem => level _ (within ▸ List.mem_map_of_mem mem)) depth

theorem Counts.foldl_listed {groups : List (List Lexeme)} (counts : Counts step)
    (areGroups : ∀ group ∈ groups, Lexeme.IsGroup group)
    (same : tokens.map lexeme = Lexeme.listed groups) (depth : Nat) :
    tokens.foldl step depth = depth := by
  rw [Lexeme.listed] at same
  induction groups generalizing tokens with
  | nil =>
      rw [List.map_eq_nil_iff.1 same]
      rfl
  | cons group more ih =>
      have here := areGroups group List.mem_cons_self
      cases more with
      | nil =>
          rw [List.intercalate_singleton] at same
          exact counts.foldl_group (by rw [same]; exact here) depth
      | cons next more =>
          rw [List.intercalate_cons_cons, List.append_assoc] at same
          obtain ⟨front, rest, rfl, first, same⟩ := List.map_eq_append_iff.1 same
          obtain ⟨comma, rest, rfl, comma', same⟩ := List.map_eq_cons_iff.1 same
          have inner := counts.foldl_group (by rw [first]; exact here) depth
          rw [List.foldl_append, List.foldl_cons, counts.comma _ _ comma', inner]
          exact ih (fun group mem => areGroups group (List.mem_cons_of_mem _ mem)) same

theorem groupsAt_of_isGroup (isGroup : Lexeme.IsGroup (tokens.map lexeme)) :
    groupsAt 0 tokens = [tokens] :=
  groupsAt_of_plain (not_comma_of_isGroup isGroup)

theorem groupsAt_append_of_isGroup {comma : Token} {rest : List Token}
    (isGroup : Lexeme.IsGroup (tokens.map lexeme)) (comma' : comma.lexeme = .punctuation .comma) :
    groupsAt 0 (tokens ++ comma :: rest) = tokens :: groupsAt 0 rest :=
  groupsAt_append_comma (not_comma_of_isGroup isGroup)
    (counts_angledNesting.foldl_group isGroup 0) comma'

/-- The groups of listed lexemes are those that were listed. -/
theorem groupsAt_listed {groups : List (List Lexeme)} (some : groups ≠ [])
    (areGroups : ∀ group ∈ groups, Lexeme.IsGroup group)
    (same : tokens.map lexeme = Lexeme.listed groups) :
    (groupsAt 0 tokens).map (List.map lexeme) = groups := by
  rw [Lexeme.listed] at same
  induction groups generalizing tokens with
  | nil => exact absurd rfl some
  | cons group more ih =>
      have here := areGroups group List.mem_cons_self
      cases more with
      | nil =>
          rw [List.intercalate_singleton] at same
          rw [groupsAt_of_isGroup (by rw [same]; exact here), List.map_singleton, same]
      | cons next more =>
          rw [List.intercalate_cons_cons, List.append_assoc] at same
          obtain ⟨front, rest, rfl, first, same⟩ := List.map_eq_append_iff.1 same
          obtain ⟨comma, rest, rfl, comma', same⟩ := List.map_eq_cons_iff.1 same
          have later := ih (List.cons_ne_nil _ _)
            (fun group mem => areGroups group (List.mem_cons_of_mem _ mem)) same
          rw [groupsAt_append_of_isGroup (by rw [first]; exact here) comma', List.map_cons, first,
            later]

end Token

/-! ### Names -/

namespace Token

variable {front rest : List Token}

/-- Whether tokens go on with a name in front of them, by `::` and an identifier. -/
def ContinuesName (tokens : List Token) : Prop :=
  ∃ colons token more name, tokens = colons :: token :: more ∧
    colons.lexeme = .punctuation .scope ∧ token.lexeme = .identifier name

theorem not_continuesName_of_head
    (ends : ∀ token ∈ rest.head?, token.lexeme ≠ .punctuation .scope) : ¬ ContinuesName rest := by
  rintro ⟨colons, token, more, name, rfl, scope, _⟩
  exact ends colons rfl scope

theorem scopedNames_append {more : List String}
    (same : front.map lexeme = QualifiedName.scopedLexemes more) (ends : ¬ ContinuesName rest) :
    scopedNames (front ++ rest) = (QualifiedName.scopedText more, rest) := by
  induction more generalizing front with
  | nil =>
      rw [List.map_eq_nil_iff.1 same, List.nil_append]
      refine scopedNames_of_other ?_
      intro colons token more name split scope named
      exact ends ⟨colons, token, more, name, split, scope, named⟩
  | cons name more ih =>
      obtain ⟨colons, front, rfl, scope, same⟩ := List.map_eq_cons_iff.1 same
      obtain ⟨token, front, rfl, named, same⟩ := List.map_eq_cons_iff.1 same
      rw [List.cons_append, List.cons_append, scopedNames_of_name scope named, ih same]
      rfl

theorem unscopedName_append {name : String} {more : List String}
    (same : front.map lexeme = .identifier name :: QualifiedName.scopedLexemes more)
    (ends : ¬ ContinuesName rest) :
    unscopedName (front ++ rest) = .ok (name ++ QualifiedName.scopedText more, rest) := by
  obtain ⟨token, front, rfl, named, same⟩ := List.map_eq_cons_iff.1 same
  rw [List.cons_append, unscopedName, named, scopedNames_append same ends]

theorem qualifiedName_append {name : QualifiedName} (same : front.map lexeme = name.lexemes)
    (ends : ¬ ContinuesName rest) :
    qualifiedName (front ++ rest) = .ok (name.text, rest) := by
  rw [QualifiedName.lexemes] at same
  rw [QualifiedName.text]
  split at same
  · next rooted =>
      obtain ⟨colons, front, rfl, scope, same⟩ := List.map_eq_cons_iff.1 same
      rw [List.cons_append, qualifiedName, if_pos scope, unscopedName_append same ends, if_pos rooted]
      rfl
  · next unrooted =>
      have found := unscopedName_append same ends
      obtain ⟨token, front, rfl, named, same⟩ := List.map_eq_cons_iff.1 same
      rw [List.cons_append] at found
      rw [List.cons_append, qualifiedName, if_neg (by simp [named]), found, if_neg unrooted]
      simp

end Token

/-! ### Types -/

namespace Lexeme

/-- What may come behind a type: a name, brackets, or the end of a parameter. -/
def followsType : Lexeme → Bool
  | identifier _ | opening .square | closing .round | punctuation .comma => true
  | _ => false

/-- What may come behind a base type. -/
def followsBase (lexeme : Lexeme) : Bool :=
  lexeme = .punctuation .star || lexeme = .punctuation .ampersand || lexeme.followsType

end Lexeme

/-- What names with scopes begin with. -/
def Lexeme.startsName : Lexeme → Bool
  | .punctuation .scope => true
  | .identifier name => isPlainName name
  | _ => false

/-- What types begin with, behind their specifiers. -/
def Lexeme.startsType : Lexeme → Bool
  | .keyword .void | .keyword .int | .keyword .double | .keyword .structKey => true
  | lexeme => lexeme.startsName

theorem Lexeme.startsType_of_startsName {lexeme : Lexeme} (starts : lexeme.startsName) :
    lexeme.startsType := by
  cases lexeme with
  | keyword => cases starts
  | _ => exact starts

theorem QualifiedName.exists_head {name : QualifiedName} (plain : name.IsPlain) :
    ∃ lexeme more, name.lexemes = lexeme :: more ∧ lexeme.startsName := by
  rw [lexemes]
  split
  · exact ⟨_, _, rfl, rfl⟩
  · exact ⟨_, _, rfl, plain name.first List.mem_cons_self⟩

theorem Lexeme.mem_listed {groups : List (List Lexeme)} {lexeme : Lexeme}
    (mem : lexeme ∈ listed groups) :
    lexeme = .punctuation .comma ∨ ∃ group ∈ groups, lexeme ∈ group := by
  rw [listed] at mem
  induction groups with
  | nil => cases mem
  | cons group more ih =>
      cases more with
      | nil =>
          rw [List.intercalate_singleton] at mem
          exact Or.inr ⟨group, List.mem_cons_self, mem⟩
      | cons next more =>
          rw [List.intercalate_cons_cons, List.mem_append, List.mem_append, List.mem_singleton] at mem
          obtain (first | comma) | later := mem
          · exact Or.inr ⟨group, List.mem_cons_self, first⟩
          · exact Or.inl comma
          · obtain comma | ⟨other, among, inside⟩ := ih later
            · exact Or.inl comma
            · exact Or.inr ⟨other, List.mem_cons_of_mem _ among, inside⟩

theorem Lexeme.isGroup_of_level {lexemes : List Lexeme}
    (level : ∀ lexeme ∈ lexemes, lexeme.isLevel) : IsGroup lexemes :=
  ⟨lexemes, [], 0, by simp [brackets], level, by simp⟩

theorem Lexeme.isLevel_ofWord (word : String) : (ofWord word).isLevel := by
  unfold ofWord
  split <;> rfl

namespace BaseType

variable {front rest : List Token} {beyond : List Char}

theorem argumentsOf_listed {words : List String} {inside : List Token}
    (same : inside.map Token.lexeme = Lexeme.listed (words.map fun word => [Lexeme.ofWord word])) :
    argumentsOf inside = words := by
  have names : ∀ {groups : List (List Token)} {words : List String},
      groups.map (List.map Token.lexeme) = words.map (fun word => [Lexeme.ofWord word]) →
      (groups.filter fun group => !group.isEmpty).map Token.nameOf = words := by
    intro groups words same
    induction groups generalizing words with
    | nil =>
        rw [List.map_nil] at same
        rw [List.map_eq_nil_iff.1 same.symm]
        rfl
    | cons group more ih =>
        obtain ⟨word, words, rfl, first, later⟩ := List.map_eq_cons_iff.1 same.symm
        obtain ⟨token, _, rfl, named, none⟩ := List.map_eq_cons_iff.1 first.symm
        rw [List.map_eq_nil_iff.1 none, List.filter_cons_of_pos rfl, List.map_cons, ih later.symm]
        rw [Token.nameOf, Token.textOf, named, Lexeme.spelling_ofWord, String.ofList_toList]
  rw [argumentsOf]
  by_cases none : words = []
  · rw [none] at same ⊢
    rw [List.map_eq_nil_iff.1 same]
    rfl
  · have groups := Token.groupsAt_listed (by simpa using none) ?_ same
    · rw [Token.groups]
      split
      · next empty =>
          rw [List.isEmpty_iff.1 empty] at groups
          obtain ⟨_, _, _, first, _⟩ := List.map_eq_cons_iff.1 groups.symm
          cases first
      · exact names groups
    · intro group mem
      obtain ⟨word, _, rfl⟩ := List.mem_map.1 mem
      refine Lexeme.isGroup_of_level fun lexeme mem => ?_
      rw [List.mem_singleton.1 mem]
      exact Lexeme.isLevel_ofWord word

theorem readNamed_append {name : QualifiedName} (same : front.map Token.lexeme = name.lexemes)
    (ends : ∀ token ∈ rest.head?, token.lexeme.followsBase) :
    readNamed beyond (front ++ rest) = .ok (.named name.text, rest) := by
  have scope : ∀ token ∈ rest.head?, token.lexeme ≠ .punctuation .scope := by
    intro token head same
    have follows := ends token head
    rw [same] at follows
    cases follows
  rw [readNamed, Token.qualifiedName_append same (Token.not_continuesName_of_head scope)]
  cases rest with
  | nil => rfl
  | cons token rest =>
      have angle : token.lexeme ≠ .opening .angle := by
        intro same
        have follows := ends token rfl
        rw [same] at follows
        cases follows
      dsimp only [Bind.bind, Except.bind]
      rw [if_neg angle]
      rfl

theorem readNamed_generic {name : QualifiedName} {words : List String}
    (same : front.map Token.lexeme = name.lexemes ++ .opening .angle ::
      (Lexeme.listed (words.map fun word => [Lexeme.ofWord word]) ++ [.closing .angle])) :
    readNamed beyond (front ++ rest) = .ok (.generic name.text words, rest) := by
  obtain ⟨front, more, rfl, named, same⟩ := List.map_eq_append_iff.1 same
  obtain ⟨opening, more, rfl, opens, same⟩ := List.map_eq_cons_iff.1 same
  obtain ⟨inside, more, rfl, arguments, same⟩ := List.map_eq_append_iff.1 same
  obtain ⟨close, more, rfl, closes, none⟩ := List.map_eq_cons_iff.1 same
  rw [List.map_eq_nil_iff.1 none]
  have plain : ∀ token ∈ inside,
      token.lexeme ≠ .opening .angle ∧ token.lexeme ≠ .closing .angle := by
    intro token mem
    have listed := List.mem_map_of_mem (f := Token.lexeme) mem
    rw [arguments] at listed
    obtain comma | ⟨_, among, within⟩ := Lexeme.mem_listed listed
    · simp [comma]
    · obtain ⟨word, _, rfl⟩ := List.mem_map.1 among
      rw [List.mem_singleton.1 within]
      unfold Lexeme.ofWord
      split <;> simp
  have whole : front ++ opening :: (inside ++ [close]) ++ rest =
      front ++ opening :: (inside ++ close :: rest) := by simp
  rw [whole, readNamed, Token.qualifiedName_append named (Token.not_continuesName_of_head ?_)]
  · dsimp only [Bind.bind, Except.bind]
    rw [if_pos opens, Enclosure.read_append beyond opens plain closes]
    dsimp only
    rw [argumentsOf_listed arguments]
    rfl
  · intro token head
    cases head
    rw [opens]
    simp

theorem read_of_name {token : Token} (starts : token.lexeme.startsName) :
    read beyond (token :: rest) = readNamed beyond (token :: rest) := by
  rw [read]
  cases same : token.lexeme with
  | identifier word =>
      rw [same] at starts
      simp only [Lexeme.startsName, Lexeme.isPlainName, Bool.and_eq_true,
        Bool.not_eq_true'] at starts
      dsimp only
      rw [if_neg (by simp only [starts.1.2]; simp)]
  | punctuation mark =>
      rw [same] at starts
      cases mark <;> first | rfl | cases starts
  | _ =>
      rw [same] at starts
      cases starts

theorem read_append {base : BaseType} (wellFormed : base.IsWellFormed)
    (same : front.map Token.lexeme = base.lexemes)
    (ends : ∀ token ∈ rest.head?, token.lexeme.followsBase) :
    read beyond (front ++ rest) = .ok (base, rest) := by
  have scope : ∀ token ∈ rest.head?, token.lexeme ≠ .punctuation .scope := by
    intro token head same
    have follows := ends token head
    rw [same] at follows
    cases follows
  unfold lexemes at same
  cases base with
  | void | int | double =>
      obtain ⟨token, _, rfl, word, none⟩ := List.map_eq_cons_iff.1 same
      rw [List.map_eq_nil_iff.1 none, List.singleton_append, read, word]
  | named name =>
      obtain ⟨parts, plain, rfl⟩ := wellFormed
      dsimp only at same
      rw [(QualifiedName.spells plain).lexemes_eq] at same
      have found := @readNamed_append _ _ beyond _ same ends
      obtain ⟨lexeme, more, head, starts⟩ := QualifiedName.exists_head plain
      rw [head] at same
      obtain ⟨token, front, rfl, rfl, _⟩ := List.map_eq_cons_iff.1 same
      rw [List.cons_append] at found ⊢
      rw [read_of_name starts, found]
  | tagged name =>
      obtain ⟨parts, plain, rfl⟩ := wellFormed
      dsimp only at same
      rw [(QualifiedName.spells plain).lexemes_eq] at same
      obtain ⟨token, front, rfl, word, same⟩ := List.map_eq_cons_iff.1 same
      rw [List.cons_append, read, word,
        Token.qualifiedName_append same (Token.not_continuesName_of_head scope)]
      rfl
  | generic name arguments =>
      obtain ⟨⟨parts, plain, rfl⟩, _⟩ := wellFormed
      dsimp only at same
      rw [(QualifiedName.spells plain).lexemes_eq] at same
      have found := @readNamed_generic _ rest beyond _ _ same
      obtain ⟨lexeme, more, head, starts⟩ := QualifiedName.exists_head plain
      rw [head] at same
      obtain ⟨token, front, rfl, rfl, _⟩ := List.map_eq_cons_iff.1 same
      rw [List.cons_append] at found ⊢
      rw [read_of_name starts, found]

theorem exists_head {base : BaseType} (wellFormed : base.IsWellFormed) :
    ∃ lexeme more, base.lexemes = lexeme :: more ∧ lexeme.startsType := by
  have named : ∀ name, IsQualified name → ∃ lexeme more,
      Text.lexemes name.toList = lexeme :: more ∧ lexeme.startsType := by
    rintro _ ⟨parts, plain, rfl⟩
    obtain ⟨lexeme, more, head, starts⟩ := QualifiedName.exists_head plain
    exact ⟨lexeme, more, (QualifiedName.spells plain).lexemes_eq.trans head,
      Lexeme.startsType_of_startsName starts⟩
  cases base with
  | void | int | double | tagged => exact ⟨_, _, rfl, rfl⟩
  | named name => exact named name wellFormed
  | generic name arguments =>
      obtain ⟨lexeme, more, head, starts⟩ := named name wellFormed.1
      exact ⟨lexeme, _, congrArg (· ++ _) head, starts⟩

end BaseType

theorem Lexeme.not_specifier_of_startsType {lexeme : Lexeme} (starts : lexeme.startsType) :
    lexeme.isSpecifier = false := by
  cases lexeme with
  | keyword word => cases word <;> first | rfl | cases starts
  | identifier name =>
      simp only [startsType, startsName, isPlainName, Bool.and_eq_true, Bool.not_eq_true'] at starts
      exact starts.1.1.2
  | _ => rfl

/-- No word at the start of a type belongs to specifiers. -/
theorem Token.dropSpecifiers_of_startsType {token : Token} {rest : List Token}
    (starts : token.lexeme.startsType) : dropSpecifiers false (token :: rest) = token :: rest := by
  rw [dropSpecifiers]
  simp [Lexeme.not_specifier_of_startsType starts]

theorem Wrap.read_append {wraps : List Wrap} {front rest : List Token} {behindAmpersand : Bool}
    (markers : AreMarkers wraps) (apart : behindAmpersand → wraps.head? ≠ some .reference)
    (same : front.map Token.lexeme = wraps.flatMap lexemes)
    (ends : ∀ token ∈ rest.head?, token.lexeme.followsType) :
    read behindAmpersand (front ++ rest) = (wraps, rest) := by
  induction wraps generalizing front behindAmpersand with
  | nil =>
      rw [List.map_eq_nil_iff.1 same, List.nil_append]
      cases rest with
      | nil => rfl
      | cons token rest =>
          have follows := ends token rfl
          rw [read]
          split
          · next star =>
              rw [star] at follows
              cases follows
          · next ampersand =>
              rw [ampersand] at follows
              cases follows
          · next const =>
              rw [const] at follows
              cases follows
          · rfl
  | cons wrap more ih =>
      have inner : AreMarkers more := by
        refine ⟨fun wrap mem => markers.indirect wrap (List.mem_cons_of_mem _ mem), ?_⟩
        exact markers.single.tail
      have indirect := markers.indirect wrap List.mem_cons_self
      cases wrap with
      | star =>
          obtain ⟨token, front, rfl, star, same⟩ := List.map_eq_cons_iff.1 same
          have later := @ih _ false inner (fun none => by cases none) same
          rw [List.cons_append, read, star]
          dsimp only
          rw [later]
      | reference =>
          obtain ⟨token, front, rfl, ampersand, same⟩ := List.map_eq_cons_iff.1 same
          have next : more.head? ≠ some .reference := by
            cases more with
            | nil => simp
            | cons outer more =>
                have apart := (List.isChain_cons_cons.1 markers.single).1 rfl
                simpa using apart
          have first : behindAmpersand = false := by
            cases behindAmpersand with
            | false => rfl
            | true => exact absurd rfl (apart rfl)
          have later := @ih _ true inner (fun _ => next) same
          rw [List.cons_append, read, ampersand]
          dsimp only
          rw [if_neg (by simp [first]), later]
      | array | unsized => cases indirect

theorem Lexeme.followsBase_of_wraps {wraps : List Wrap} {front rest : List Token}
    (same : front.map Token.lexeme = wraps.flatMap Wrap.lexemes)
    (ends : ∀ token ∈ rest.head?, token.lexeme.followsType) :
    ∀ token ∈ (front ++ rest).head?, token.lexeme.followsBase := by
  cases front with
  | nil =>
      intro token head
      simp [followsBase, ends token head]
  | cons first front =>
      intro token head
      cases head
      have mem : first.lexeme ∈ wraps.flatMap Wrap.lexemes := by
        rw [← same]
        exact List.mem_cons_self
      obtain ⟨wrap, _, marker⟩ := List.mem_flatMap.1 mem
      cases wrap with
      | star | reference =>
          rw [List.mem_singleton.1 marker]
          rfl
      | array | unsized => cases marker

theorem CType.read_append {type : CType} {front rest : List Token} {beyond : List Char}
    (wellFormed : type.base.IsWellFormed) (markers : Wrap.AreMarkers type.wraps)
    (same : front.map Token.lexeme = type.lexemes)
    (ends : ∀ token ∈ rest.head?, token.lexeme.followsType) :
    read beyond (front ++ rest) = .ok (type, rest) := by
  obtain ⟨base, wraps, rfl, baseSame, wrapsSame⟩ := List.map_eq_append_iff.1 same
  have found := @BaseType.read_append base (wraps ++ rest) beyond _ wellFormed baseSame
    (Lexeme.followsBase_of_wraps wrapsSame ends)
  obtain ⟨lexeme, more, head, starts⟩ := BaseType.exists_head wellFormed
  rw [head] at baseSame
  obtain ⟨token, base, rfl, rfl, _⟩ := List.map_eq_cons_iff.1 baseSame
  have read := @Wrap.read_append _ _ _ false markers (fun none => by cases none) wrapsSame ends
  rw [List.append_assoc, CType.read, List.cons_append, Token.dropSpecifiers_of_startsType starts,
    ← List.cons_append, found]
  dsimp only [Bind.bind, Except.bind]
  rw [read]
  rfl

end PxdStub
