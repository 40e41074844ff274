import PxdStub.Proofs.LeadingSpecifiers
import PxdStub.Proofs.VariableStatements

/-!
Type expressions. Specifiers, a base type and markers are read as the type that they spell, and what
stands behind them is left.

    expression ::= specifier* base marker*
-/

namespace PxdStub

variable {written inside rest : List Token}

/-! ### Template arguments -/

namespace BaseType

/-- Template arguments with commas between them. A comma inside an argument stands inside brackets,
and an argument in front of a comma leaves none open. -/
inductive Arguments : List (List Token) → List Token → Prop
  | last {group : List Token} : Token.commasInside 0 group → Arguments [group] group
  | cons {group more : List Token} {comma : Token} {groups : List (List Token)} :
      Token.commasInside 0 group → group.foldl Token.angledNesting 0 = 0 →
      comma.lexeme = .punctuation .comma → Arguments groups more →
      Arguments (group :: groups) (group ++ comma :: more)

/-- Any tokens are arguments. -/
theorem exists_arguments (inside : List Token) : ∃ groups, Arguments groups inside := by
  -- Behind the first comma outside brackets, fewer tokens are left.
  induction size : inside.length using Nat.strong_induction_on generalizing inside with
  | _ size ih =>
      subst size
      obtain commas | ⟨group, comma, more, rfl, commas, level, isComma⟩ :=
        Token.commasInside_or 0 inside
      · exact ⟨[inside], .last commas⟩
      · have shorter : more.length < (group ++ comma :: more).length := by
          rw [List.length_append, List.length_cons]
          omega
        obtain ⟨groups, later⟩ := ih more.length shorter more rfl
        exact ⟨group :: groups, .cons commas level isComma later⟩

variable {groups : List (List Token)}

theorem Arguments.groupsAt_eq (arguments : Arguments groups inside) :
    Token.groupsAt 0 inside = groups := by
  induction arguments with
  | last commas => exact Token.groupsAt_of_commasInside commas
  | cons commas level isComma _ ih =>
      rw [Token.groupsAt_append_of_commasInside commas level isComma, ih]

/-- The texts of the arguments that are not empty. -/
def namesOf (groups : List (List Token)) : List String :=
  (groups.filter fun group => !group.isEmpty).map Token.nameOf

theorem Arguments.argumentsOf_eq (arguments : Arguments groups inside) :
    argumentsOf inside = namesOf groups := by
  rw [argumentsOf, namesOf, ← arguments.groupsAt_eq]
  cases inside <;> rfl

end BaseType

/-! ### Base types -/

/-- Whether a name does not begin with a word that is read in front of it or as a part of a built-in
type. Behind a leading `::` any word is part of the name. -/
def QualifiedName.IsFree (name : QualifiedName) : Prop :=
  name.rooted = false → name.first ∉ typeSpecifiers ∧ name.first ∉ typeModifiers

namespace BaseType

/-- The tokens that spell a base type, in front of tokens that do not go on with it. -/
inductive Written : BaseType → List Token → List Token → Prop
  | builtin {base : BaseType} {token : Token} {word : Keyword} {rest : List Token} :
      token.lexeme = .keyword word → word.builtin? = some base → Written base [token] rest
  | tagged {word : Token} {name : QualifiedName} {named rest : List Token} :
      word.lexeme = .keyword .structKey ∨ word.lexeme = .keyword .classKey →
      named.map Token.lexeme = name.lexemes → ¬ Token.ContinuesName rest →
      Written (.tagged name.text) (word :: named) rest
  | modified {first : Token} {name : String} {words : List String} {more rest : List Token} :
      first.lexeme = .identifier name → name ∈ typeModifiers →
      more.map (fun token => token.lexeme.builtinWord?) = words.map some →
      (∀ token ∈ rest.head?, token.lexeme.builtinWord? = none) →
      Written (.named (" ".intercalate (name :: words))) (first :: more) rest
  | named {name : QualifiedName} {named rest : List Token} :
      name.IsFree → named.map Token.lexeme = name.lexemes → ¬ Token.ContinuesName rest →
      (∀ token ∈ rest.head?, token.lexeme ≠ .opening .angle) → Written (.named name.text) named rest
  | generic {name : QualifiedName} {named inside rest : List Token} {opening closing : Token}
      {groups : List (List Token)} :
      name.IsFree → named.map Token.lexeme = name.lexemes → opening.lexeme = .opening .angle →
      Token.Balances .angle inside → Arguments groups inside → closing.lexeme = .closing .angle →
      Written (.generic name.text (namesOf groups)) (named ++ opening :: (inside ++ [closing])) rest

variable {beyond : List Char} {base : BaseType} {name : QualifiedName} {named : List Token}

theorem head_of_name (free : name.IsFree) (same : named.map Token.lexeme = name.lexemes) :
    ∃ token more, named = token :: more ∧ token.lexeme.isSpecifier = false ∧
      token.lexeme.isString = false ∧
      ∀ rest, read beyond (token :: rest) = readNamed beyond (token :: rest) := by
  rw [QualifiedName.lexemes] at same
  split at same
  · obtain ⟨colons, more, rfl, scope, _⟩ := List.map_eq_cons_iff.1 same
    refine ⟨colons, more, rfl, by rw [scope]; rfl, by rw [scope]; rfl, fun rest => ?_⟩
    rw [read, scope]
  · next unrooted =>
      obtain ⟨noSpecifier, noModifier⟩ := free (by simpa using unrooted)
      obtain ⟨token, more, rfl, identifier, _⟩ := List.map_eq_cons_iff.1 same
      refine ⟨token, more, rfl, ?_, by rw [identifier]; rfl, fun rest => ?_⟩
      · rw [identifier, Lexeme.isSpecifier]
        simpa using noSpecifier
      · rw [read, identifier]
        dsimp only
        rw [if_neg (by simpa using noModifier)]

theorem Written.head (isWritten : Written base written rest) : ∃ token more,
    written = token :: more ∧ token.lexeme.isSpecifier = false ∧ token.lexeme.isString = false := by
  cases isWritten with
  | @builtin base token word _ same builtin =>
      refine ⟨token, [], rfl, ?_, by rw [same]; rfl⟩
      rw [same]
      cases word <;> first | rfl | cases builtin
  | @tagged word name named _ tag =>
      refine ⟨word, named, rfl, ?_⟩
      obtain same | same := tag <;> rw [same] <;> exact ⟨rfl, rfl⟩
  | @modified first name _ more _ same modifier =>
      have apart : ∀ name ∈ typeModifiers, name ∉ typeSpecifiers := by decide
      refine ⟨first, more, rfl, ?_, by rw [same]; rfl⟩
      rw [same, Lexeme.isSpecifier]
      simpa using apart name modifier
  | named free same =>
      obtain ⟨token, more, rfl, noSpecifier, noString, _⟩ := @head_of_name [] _ _ free same
      exact ⟨token, more, rfl, noSpecifier, noString⟩
  | generic free same =>
      obtain ⟨token, more, rfl, noSpecifier, noString, _⟩ := @head_of_name [] _ _ free same
      exact ⟨token, _, rfl, noSpecifier, noString⟩

theorem builtinWords_append {words : List String} {more : List Token}
    (same : more.map (fun token => token.lexeme.builtinWord?) = words.map some)
    (ends : ∀ token ∈ rest.head?, token.lexeme.builtinWord? = none) :
    Token.builtinWords (more ++ rest) = (words, rest) := by
  induction more generalizing words with
  | nil =>
      rw [List.map_eq_nil_iff.1 same.symm, List.nil_append]
      cases rest with
      | nil => rfl
      | cons token rest => rw [Token.builtinWords, ends token rfl]
  | cons token more ih =>
      obtain ⟨word, words, rfl, first, later⟩ := List.map_eq_cons_iff.1 same.symm
      have here : token.lexeme.builtinWord? = some word := first.symm
      rw [List.cons_append, Token.builtinWords, here, ih later.symm]

theorem readNamed_of_name (same : named.map Token.lexeme = name.lexemes)
    (ends : ¬ Token.ContinuesName rest)
    (angle : ∀ token ∈ rest.head?, token.lexeme ≠ .opening .angle) :
    readNamed beyond (named ++ rest) = .ok (.named name.text, rest) := by
  rw [readNamed, Token.qualifiedName_append same ends]
  cases rest with
  | nil => rfl
  | cons token rest =>
      dsimp only [Bind.bind, Except.bind]
      rw [if_neg (angle token rfl)]
      rfl

theorem readNamed_of_arguments {opening closing : Token} {groups : List (List Token)}
    (same : named.map Token.lexeme = name.lexemes) (opens : opening.lexeme = .opening .angle)
    (balanced : Token.Balances .angle inside) (arguments : Arguments groups inside)
    (closes : closing.lexeme = .closing .angle) :
    readNamed beyond (named ++ opening :: (inside ++ closing :: rest)) =
      .ok (.generic name.text (namesOf groups), rest) := by
  have ends : ¬ Token.ContinuesName (opening :: (inside ++ closing :: rest)) := by
    refine Token.not_continuesName_of_head fun token head => ?_
    cases head
    rw [opens]
    nofun
  rw [readNamed, Token.qualifiedName_append same ends]
  dsimp only [Bind.bind, Except.bind]
  rw [if_pos opens, Enclosure.read_of_close? opens (Enclosure.close?_of_deepen? closes balanced _)]
  dsimp only
  rw [arguments.argumentsOf_eq]
  rfl

/-- A base type is read from what it is written with. -/
theorem Written.read (isWritten : Written base written rest) :
    BaseType.read beyond (written ++ rest) = .ok (base, rest) := by
  cases isWritten with
  | @builtin _ token word _ same builtin =>
      rw [List.singleton_append, BaseType.read, same]
      cases word <;> cases builtin <;> rfl
  | tagged tag same ends =>
      have found := Token.qualifiedName_append same ends
      obtain tag | tag := tag
      · rw [List.cons_append, BaseType.read, tag, found]
        rfl
      · rw [List.cons_append, BaseType.read, tag, found]
        rfl
  | @modified first name words more _ same modifier builtin ends =>
      have word : first.lexeme.builtinWord? = some name := by
        rw [same, Lexeme.builtinWord?, if_pos (by simp [modifier])]
      have whole : (first :: more).map (fun token => token.lexeme.builtinWord?) =
          (name :: words).map some := by
        rw [List.map_cons, List.map_cons, word, builtin]
      have found := builtinWords_append whole ends
      rw [List.cons_append] at found ⊢
      rw [BaseType.read, same]
      dsimp only
      rw [if_pos (by simpa using modifier), found]
  | named free same ends angle =>
      have found := @readNamed_of_name _ beyond _ _ same ends angle
      obtain ⟨token, more, rfl, _, _, starts⟩ := @head_of_name beyond _ _ free same
      rw [List.cons_append] at found ⊢
      rw [starts, found]
  | generic free same opens balanced arguments closes =>
      have found := @readNamed_of_arguments _ rest beyond _ _ _ _ _ same opens balanced arguments closes
      rw [List.append_assoc, List.cons_append, List.append_assoc, List.singleton_append]
      obtain ⟨token, more, rfl, _, _, starts⟩ := @head_of_name beyond _ _ free same
      rw [List.cons_append] at found ⊢
      rw [starts, found]

end BaseType

/-! ### Markers -/

/-- The wraps that markers spell. Two ampersands that stand together are one reference. -/
def Wrap.ofMarkers : List Lexeme → List Wrap
  | [] => []
  | .punctuation .star :: more => .star :: ofMarkers more
  | .punctuation .ampersand :: .punctuation .ampersand :: more => .reference :: ofMarkers more
  | .punctuation .ampersand :: more => .reference :: ofMarkers more
  | _ :: more => ofMarkers more

theorem Wrap.read_true_of_other {tokens : List Token}
    (other : ∀ token ∈ tokens.head?, token.lexeme ≠ .punctuation .ampersand) :
    read true tokens = read false tokens := by
  cases tokens with
  | nil => rfl
  | cons token more =>
      rw [read, read]
      split
      · rfl
      · next ampersand => exact absurd ampersand (other token rfl)
      · rfl
      · rfl

theorem Wrap.read_eq_ofMarkers {markers : List Token} {lexemes : List Lexeme}
    (same : markers.map Token.lexeme = lexemes) (areMarkers : ∀ lexeme ∈ lexemes, lexeme.isMarker) :
    (read false markers).1 = ofMarkers lexemes := by
  fun_induction ofMarkers lexemes generalizing markers with
  | case1 =>
      rw [List.map_eq_nil_iff.1 same]
      rfl
  | case2 more ih =>
      obtain ⟨star, markers, rfl, isStar, same⟩ := List.map_eq_cons_iff.1 same
      rw [read, isStar]
      exact congrArg (Wrap.star :: ·) (ih same (List.forall_mem_cons.1 areMarkers).2)
  | case3 more ih =>
      obtain ⟨first, markers, rfl, isFirst, same⟩ := List.map_eq_cons_iff.1 same
      obtain ⟨second, markers, rfl, isSecond, same⟩ := List.map_eq_cons_iff.1 same
      have later := (List.forall_mem_cons.1 (List.forall_mem_cons.1 areMarkers).2).2
      have paired : (read true (second :: markers)).1 = ofMarkers more := by
        rw [read, isSecond]
        exact ih same later
      rw [read, isFirst]
      exact congrArg (Wrap.reference :: ·) paired
  | case4 more single ih =>
      obtain ⟨first, markers, rfl, isFirst, same⟩ := List.map_eq_cons_iff.1 same
      have other : ∀ token ∈ markers.head?, token.lexeme ≠ .punctuation .ampersand := by
        intro token head second
        obtain ⟨_, rfl⟩ := List.head?_eq_some_iff.1 head
        exact single _ (by rw [← same, List.map_cons, second])
      rw [read, isFirst]
      dsimp only
      rw [if_neg Bool.false_ne_true, read_true_of_other other]
      exact congrArg (Wrap.reference :: ·) (ih same (List.forall_mem_cons.1 areMarkers).2)
  | case5 lexeme more noStar _ noAmpersand ih =>
      obtain ⟨first, markers, rfl, isFirst, same⟩ := List.map_eq_cons_iff.1 same
      obtain ⟨here, later⟩ := List.forall_mem_cons.1 areMarkers
      obtain star | ampersand | const := Lexeme.eq_of_isMarker here
      · exact absurd star noStar
      · exact absurd ampersand noAmpersand
      · rw [read, isFirst, const]
        exact ih same later

/-! ### Whole types -/

variable {base : BaseType} {specifiers markers : List Token}

/-- A type expression is read as its base with its markers, whatever stands behind it. -/
theorem CType.read_written {beyond : List Char} (areSpecifiers : Token.AreSpecifiers specifiers)
    (isWritten : BaseType.Written base written (markers ++ rest))
    (areMarkers : ∀ marker ∈ markers, marker.lexeme.isMarker)
    (ends : ∀ token ∈ rest.head?, token.lexeme.isMarker = false) :
    read beyond (specifiers ++ (written ++ (markers ++ rest))) =
      .ok (⟨base, Wrap.ofMarkers (markers.map Token.lexeme)⟩, rest) := by
  have other : ∀ token ∈ (written ++ (markers ++ rest)).head?,
      token.lexeme.isSpecifier = false ∧ token.lexeme.isString = false := by
    obtain ⟨token, more, rfl, apart⟩ := isWritten.head
    intro first head
    cases head
    exact apart
  have listed : ∀ lexeme ∈ markers.map Token.lexeme, lexeme.isMarker := by
    intro lexeme mem
    obtain ⟨marker, listed, rfl⟩ := List.mem_map.1 mem
    exact areMarkers marker listed
  rw [read, areSpecifiers.dropSpecifiers other, isWritten.read]
  change Except.ok (CType.mk base (Wrap.read false (markers ++ rest)).1,
    (Wrap.read false (markers ++ rest)).2) = _
  rw [Wrap.read_markers areMarkers ends, Wrap.read_eq_ofMarkers rfl listed]

namespace Parser

variable {text : List Char} {lexed : Lexed}

/-- The type of a text that begins with a type expression, and the text behind the expression. -/
theorem typeAndRest_written (lexes : Lexed.ofText text = .ok lexed)
    (split : lexed.tokens = specifiers ++ (written ++ (markers ++ rest)))
    (areSpecifiers : Token.AreSpecifiers specifiers)
    (isWritten : BaseType.Written base written (markers ++ rest))
    (areMarkers : ∀ marker ∈ markers, marker.lexeme.isMarker)
    (ends : ∀ token ∈ rest.head?, token.lexeme.isMarker = false) :
    typeAndRest text = .ok (⟨base, Wrap.ofMarkers (markers.map Token.lexeme)⟩,
      Text.trim (Token.sourceOf rest)) := by
  rw [typeAndRest, lexes]
  dsimp only [Bind.bind, Except.bind]
  rw [split, CType.read_written areSpecifiers isWritten areMarkers ends]
  rfl

theorem typeAndRest_map : typeAndRest
    "extern \"C\" static std::map<int, , P<a, 2>> const * && & x;".toList =
      .ok (⟨.generic "std::map" ["int", "P<a, 2>"], [.star, .reference, .reference]⟩,
        "x;".toList) := by
  let external : Token := ⟨.keyword .externKey, 0, [' ']⟩
  let linkage : Token := ⟨.string "C", 7, [' ']⟩
  let static : Token := ⟨.identifier "static", 11, [' ']⟩
  let name : QualifiedName := ⟨false, "std", ["map"]⟩
  let named : List Token := [⟨.identifier "std", 18, []⟩, ⟨.punctuation .scope, 21, []⟩,
    ⟨.identifier "map", 23, []⟩]
  let first : List Token := [⟨.keyword .int, 27, []⟩]
  let last : List Token := [⟨.identifier "P", 34, []⟩, ⟨.opening .angle, 35, []⟩,
    ⟨.identifier "a", 36, []⟩, ⟨.punctuation .comma, 37, [' ']⟩, ⟨.number "2", 39, []⟩,
    ⟨.closing .angle, 40, []⟩]
  let inside : List Token :=
    first ++ ⟨.punctuation .comma, 30, [' ']⟩ :: ([] ++ ⟨.punctuation .comma, 32, [' ']⟩ :: last)
  let written : List Token :=
    named ++ ⟨.opening .angle, 26, []⟩ :: (inside ++ [⟨.closing .angle, 41, [' ']⟩])
  let markers : List Token := [⟨.keyword .const, 43, [' ']⟩, ⟨.punctuation .star, 49, [' ']⟩,
    ⟨.punctuation .ampersand, 51, []⟩, ⟨.punctuation .ampersand, 52, [' ']⟩,
    ⟨.punctuation .ampersand, 54, [' ']⟩]
  let rest : List Token := [⟨.identifier "x", 56, []⟩, ⟨.punctuation .semicolon, 57, []⟩]
  have lexes : Lexed.ofText
      "extern \"C\" static std::map<int, , P<a, 2>> const * && & x;".toList =
        .ok ⟨[], [external, linkage, static] ++ (written ++ (markers ++ rest))⟩ := by cbv
  have areSpecifiers : Token.AreSpecifiers [external, linkage, static] :=
    .linkage rfl rfl (.word (by decide) .nil)
  have balanced : Token.Balances .angle inside := by decide
  have arguments : BaseType.Arguments [first, [], last] inside :=
    .cons (by decide) rfl rfl (.cons (by decide) rfl rfl (.last (by decide)))
  have free : name.IsFree := fun _ => by decide
  have isWritten : BaseType.Written (.generic name.text (BaseType.namesOf [first, [], last]))
      written (markers ++ rest) :=
    .generic free rfl rfl balanced arguments rfl
  exact typeAndRest_written lexes rfl areSpecifiers isWritten (by decide) (by decide)

end Parser

end PxdStub
