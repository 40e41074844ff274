import PxdStub.Proofs.Answers
import PxdStub.Proofs.DefaultValues

/-!
Wrappers are transparent. The word `inline` and the parameter list of a template change nothing about
the item behind them, in whatever order and however many they are: it is read as the same item with
the same omissions and leaves the same, or it fails in the same way.
-/

namespace PxdStub

namespace Item

/-- The word `inline` and templates' parameter lists, one behind the other. -/
inductive Wraps : List Token → Prop
  | nil : Wraps []
  | inline {word : Token} {more : List Token} :
      word.lexeme = .keyword .inline → Wraps more → Wraps (word :: more)
  | template {word opening closing : Token} {parameters more : List Token} :
      word.lexeme = .keyword .template → opening.lexeme = .opening .angle →
      Token.Balances .angle parameters → closing.lexeme = .closing .angle → Wraps more →
      Wraps (word :: opening :: (parameters ++ closing :: more))

variable {scope : Scope} {inName : Bool} {front front' tokens : List Token}

theorem Wraps.fits (wraps : Wraps front) (fits : Token.Fits [] front front') : Wraps front' := by
  induction wraps generalizing front' with
  | nil =>
      cases fits
      exact .nil
  | inline word _ ih =>
      obtain _ | ⟨same, _, behind⟩ := fits
      exact .inline (same.trans word) (ih behind)
  | template word opens balanced closes _ ih =>
      obtain _ | ⟨same, _, _ | ⟨same', _, behind⟩⟩ := fits
      obtain ⟨parameters', _, rfl, inside, outside⟩ := behind.exists_split
      obtain _ | ⟨same'', _, after⟩ := outside
      have balanced' : Token.Balances .angle parameters' :=
        (Token.foldlM_deepen?_eq inside.map_lexeme).trans balanced
      exact .template (same.trans word) (same'.trans opens) balanced' (same''.trans closes)
        (ih after)

theorem dropTemplate_of_balanced {beyond : List Char} {word opening closing : Token}
    {parameters : List Token} (opens : opening.lexeme = .opening .angle)
    (balanced : Token.Balances .angle parameters) (closes : closing.lexeme = .closing .angle) :
    dropTemplate beyond (word :: opening :: (parameters ++ closing :: tokens)) = .ok tokens := by
  rw [dropTemplate, List.tail_cons]
  dsimp only
  rw [if_pos opens, Enclosure.read_of_close? opens (Enclosure.close?_of_deepen? closes balanced _)]
  rfl

theorem answer_inline {word : Token} (same : word.lexeme = .keyword .inline) :
    answer scope inName (word :: tokens) = answer scope false tokens := by
  have starts : kind? scope.owner inName (word :: tokens) = some .inline :=
    (kind?_eq_iff_keyword rfl).2 same
  rw [answer_of_kind? starts, readKind, same]
  rfl

theorem answer_template {word : Token} {rest : List Token} (same : word.lexeme = .keyword .template)
    (dropped : dropTemplate scope.beyond (word :: rest) = .ok tokens) :
    answer scope inName (word :: rest) = answer scope false tokens := by
  have starts : kind? scope.owner inName (word :: rest) = some .template :=
    (kind?_eq_iff_keyword rfl).2 same
  rw [answer_of_kind? starts, readKind_template, dropped, Course.ofExcept_ok_bind]
  exact answer_inName _

theorem answer_wraps (wraps : Wraps front) :
    answer scope inName (front ++ tokens) = answer scope false tokens := by
  induction wraps generalizing inName with
  | nil => exact answer_inName inName
  | inline word _ ih =>
      rw [List.cons_append, answer_inline word]
      exact ih
  | template word opens balanced closes _ ih =>
      rw [List.cons_append, List.cons_append, List.append_assoc, List.cons_append,
        answer_template word (dropTemplate_of_balanced opens balanced closes)]
      exact ih

end Item

namespace Parser

variable {owner : Option String} {front text : List Char} {wrappers lexed : Lexed}

/-- A text tells the same with wrappers in front of it, but for the places that an error is about. -/
theorem answer_wrapped (lexesFront : Lexed.ofText front = .ok wrappers)
    (wraps : Item.Wraps wrappers.tokens) (bare : Token.endsBare wrappers.tokens)
    (lexes : Lexed.ofText text = .ok lexed) :
    (answer owner (front ++ ' ' :: text)).mapError ParseError.unplaced =
      (answer owner text).mapError ParseError.unplaced := by
  obtain ⟨tokens, later, whole, fits, moved⟩ := Lexed.ofText_append_blank lexesFront bare lexes
  obtain ⟨front', rfl, fits'⟩ := fits.exists_append
  rw [answer_of_ofText whole, answer_of_ofText lexes, Item.answer_wraps (wraps.fits fits')]
  exact Item.answer_moved (Token.areLexed_of_ofText lexes).areRead moved (beyond_ofOwner owner)

theorem answer_in_two_wrappers :
    (answer none ("template <class T, P<T, 2>> inline".toList ++ ' ' :: "void f(P<T> x);".toList)).mapError
        ParseError.unplaced =
      (answer none "void f(P<T> x);".toList).mapError ParseError.unplaced := by
  let parameters : List Token := [⟨.keyword .classKey, 10, [' ']⟩, ⟨.identifier "T", 16, []⟩,
    ⟨.punctuation .comma, 17, [' ']⟩, ⟨.identifier "P", 19, []⟩, ⟨.opening .angle, 20, []⟩,
    ⟨.identifier "T", 21, []⟩, ⟨.punctuation .comma, 22, [' ']⟩, ⟨.number "2", 24, []⟩,
    ⟨.closing .angle, 25, []⟩]
  let wrappers : List Token := ⟨.keyword .template, 0, [' ']⟩ :: ⟨.opening .angle, 9, []⟩ ::
    (parameters ++ ⟨.closing .angle, 26, [' ']⟩ :: [⟨.keyword .inline, 28, []⟩])
  let tokens : List Token := [⟨.keyword .void, 0, [' ']⟩, ⟨.identifier "f", 5, []⟩,
    ⟨.opening .round, 6, []⟩, ⟨.identifier "P", 7, []⟩, ⟨.opening .angle, 8, []⟩,
    ⟨.identifier "T", 9, []⟩, ⟨.closing .angle, 10, [' ']⟩, ⟨.identifier "x", 12, []⟩,
    ⟨.closing .round, 13, []⟩, ⟨.punctuation .semicolon, 14, []⟩]
  have lexesFront : Lexed.ofText "template <class T, P<T, 2>> inline".toList = .ok ⟨[], wrappers⟩ := by
    cbv
  have lexes : Lexed.ofText "void f(P<T> x);".toList = .ok ⟨[], tokens⟩ := by cbv
  have balanced : Token.Balances .angle parameters := by decide
  have wraps : Item.Wraps wrappers := .template rfl rfl balanced rfl (.inline rfl .nil)
  exact answer_wrapped lexesFront wraps rfl lexes

end Parser

end PxdStub
