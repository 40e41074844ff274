import PxdStub.Proofs.Relexing
import PxdStub.Proofs.TwinItems

/-!
Texts and parsers give the same items. A parser that goes on behind an item, and one that begins anew
at the trimmed text that is left, read twin tokens, and no operator's name goes on behind an item.
-/

namespace PxdStub.Parser

/-- What calls one behind the other answer, up to `count` of them: the item, and the text that is left
when any token is. The last call is the one that fails or leaves nothing; errors are told without
their places. -/
def answers (call : σ → Except ParseError (Option Declaration × Option σ))
    (textOf : σ → List Char) :
    Nat → σ → List (Except ParseError (Option Declaration × Option (List Char)))
  | 0, _ => []
  | count + 1, state =>
      match call state with
      | .error error => [.error error.unplaced]
      | .ok (declaration?, none) => [.ok (declaration?, none)]
      | .ok (declaration?, some later) =>
          .ok (declaration?, some (textOf later)) :: answers call textOf count later

/-- The next item, and the parser behind it unless that is at its end. -/
def nextAndLater (parser : Parser) : Except ParseError (Option Declaration × Option Parser) :=
  parser.next.map fun (declaration?, later) =>
    (declaration?, if later.tokens.isEmpty then none else some later)

/-- All declarations among answers, unless one of them is an error. -/
def declarationsAmong : List (Except ParseError (Option Declaration × Option (List Char))) →
    Except ParseError (List Declaration)
  | [] => .ok []
  | .error error :: _ => .error error
  | .ok (declaration?, _) :: rest => (declarationsAmong rest).map (declaration?.toList ++ ·)

theorem beyond_ofOwner (owner : Option String) : (Scope.ofOwner owner).beyond = [] := by
  cases owner <;> rfl

theorem nextAndLater_eq (parser : Parser) :
    let course := Item.read parser.scope parser.inName parser.tokens
    parser.nextAndLater = (course.result.mapError Failure.error).map fun found =>
      (found.1, if found.2.isEmpty then none else some (parser.moveTo found.2 course.notes)) := by
  rw [nextAndLater, next, step]
  generalize Item.read parser.scope parser.inName parser.tokens = course
  obtain ⟨notes, error | ⟨declaration?, rest⟩⟩ := course <;> rfl

theorem itemAndRest_eq {owner : Option String} {text : List Char} {fresh : Parser}
    (found : ofText owner text = .ok fresh) : itemAndRest owner text =
      fresh.nextAndLater.map fun found => (found.1, found.2.map remaining) := by
  have lexed : Token.AreLexed fresh.tokens := by
    obtain ⟨lexed, lexes, rfl⟩ := ofText_eq_ok_iff.1 found
    exact Token.areLexed_of_ofText lexes
  rw [itemAndRest, found]
  change (fresh.next >>= fun found => .ok (found.1, found.2.rest?)) = _
  rw [nextAndLater]
  cases next : fresh.next with
  | error error => rfl
  | ok found =>
      obtain ⟨declaration?, here, rfl⟩ := Except.map_ok_iff.1 next
      obtain ⟨_, reads, _⟩ := reads_of_step here
      change Except.ok _ = Except.ok _
      dsimp only
      rw [rest?_of_areLexed (lexed.suffix reads.endsItem.suffix)]
      split <;> rfl

/-- A parser between two items, and a text from which the items behind them can be read anew. -/
structure Resumes (owner : Option String) (parser : Parser) (text : List Char) : Prop where
  scope : parser.scope = Scope.ofOwner owner
  inName : parser.inName = false
  lexed : Token.AreLexed parser.tokens
  twins : ∃ lexed, Lexed.ofText text = .ok lexed ∧
    Token.Twins True True [] [] parser.tokens lexed.tokens

namespace Resumes

variable {owner : Option String} {parser : Parser} {text : List Char}

theorem start (found : ofText owner text = .ok parser) : Resumes owner parser text := by
  obtain ⟨lexed, lexes, rfl⟩ := ofText_eq_ok_iff.1 found
  have areLexed := Token.areLexed_of_ofText lexes
  exact ⟨rfl, rfl, areLexed, lexed, lexes, .refl _⟩

/-- The parser behind an item, and the text that it has left. -/
theorem later {rest : List Token} (resumes : Resumes owner parser text)
    (ends : EndsItem parser.tokens rest) (more : rest ≠ []) (notes : List Note) :
    Resumes owner (parser.moveTo rest notes) (Text.trim (Token.sourceOf rest)) := by
  have lexed := resumes.lexed.suffix ends.suffix
  obtain ⟨tokens', lexes, twins⟩ := lexed.ofText_trim more
  refine ⟨resumes.scope, ?_, lexed, _, lexes, twins⟩
  rw [moveTo_inName]
  exact ends.namesOperator_before more _

/-- One call answers the same on both sides. -/
theorem call (resumes : Resumes owner parser text) :
    Mirrors (fun error error' => error.unplaced = error'.unplaced)
      (fun found found' => found.1 = found'.1 ∧ (found.2 = none ∧ found'.2 = none ∨
        ∃ later, found.2 = some later ∧ found'.2 = some later.remaining ∧
          Resumes owner later later.remaining))
      parser.nextAndLater (itemAndRest owner text) := by
  obtain ⟨lexed, lexes, twins⟩ := resumes.twins
  have fresh : ofText owner text = .ok ⟨Scope.ofOwner owner, [], lexed.tokens, []⟩ :=
    Except.map_ok_iff.2 ⟨lexed, lexes, rfl⟩
  have twins' : Token.Twins True True (Scope.ofOwner owner).beyond (Scope.ofOwner owner).beyond
      parser.tokens lexed.tokens := by
    rwa [beyond_ofOwner]
  have mirrors := (@Item.twins_read _ _ _ _ _ false _ _ ⟨rfl, rfl⟩ (.exactly _ _)
    resumes.lexed.areRead twins').result
  rw [itemAndRest_eq fresh, nextAndLater_eq, nextAndLater_eq, resumes.scope, resumes.inName]
  cases course : Item.read (Scope.ofOwner owner) false parser.tokens with
  | mk notes result =>
      rw [course] at mirrors
      change Mirrors _ _ _ (Except.map _ (Except.map _ (Except.mapError _ (Item.read
        (Scope.ofOwner owner) false lexed.tokens).result)))
      generalize (Item.read (Scope.ofOwner owner) false lexed.tokens).result = result' at mirrors ⊢
      generalize (Item.read (Scope.ofOwner owner) false lexed.tokens).notes = notes'
      cases mirrors with
      | error alike => exact .error (alike.unplaced ⟨trivial, trivial⟩)
      | @ok found found' pairs =>
          obtain ⟨declaration?, rest⟩ := found
          obtain ⟨declaration?', rest'⟩ := found'
          obtain ⟨item, behind⟩ := pairs
          have same : declaration? = declaration?' := by
            cases item with
            | none => rfl
            | some alike => rw [alike.eq trivial]
          have ends := (Item.reads_of_read course).endsItem
          rw [beyond_ofOwner] at behind
          have left := behind.quotes trivial
          rw [List.append_nil, List.append_nil] at left
          refine .ok ⟨same, ?_⟩
          dsimp only
          rw [← behind.isEmpty]
          by_cases ended : rest = []
          · exact Or.inl ⟨by rw [ended]; rfl, by rw [ended]; rfl⟩
          · refine Or.inr ⟨_, if_neg (by simpa using ended), ?_, resumes.later ends ended notes⟩
            rw [if_neg (by simpa using ended), Option.map_some]
            exact congrArg some left.symm

end Resumes

theorem answers_of_resumes {owner : Option String} {parser : Parser} {text : List Char}
    (resumes : Resumes owner parser text) (count : Nat) :
    answers (itemAndRest owner) id count text = answers nextAndLater remaining count parser := by
  induction count generalizing parser text with
  | zero => rfl
  | succ count ih =>
      have call := resumes.call
      rw [answers, answers]
      generalize parser.nextAndLater = result at call ⊢
      generalize itemAndRest owner text = result' at call ⊢
      cases call with
      | error same =>
          dsimp only
          rw [same]
      | @ok found found' pairs =>
          obtain ⟨declaration?, later?⟩ := found
          obtain ⟨declaration?', rest?⟩ := found'
          obtain ⟨rfl, ⟨rfl, rfl⟩ | ⟨later, rfl, rfl, resumes⟩⟩ := pairs
          · rfl
          · exact congrArg _ (ih resumes)

/-- The answers of a parser up to its end are its run. -/
theorem declarationsAmong_answers {parser : Parser} {count : Nat} (standing : parser.tokens ≠ [])
    (enough : parser.tokens.length ≤ count) :
    declarationsAmong (answers nextAndLater remaining count parser) =
      parser.run.result.mapError ParseError.unplaced := by
  induction count generalizing parser with
  | zero =>
      rw [Nat.le_zero, List.length_eq_zero_iff] at enough
      exact absurd enough standing
  | succ count ih =>
      cases found : parser.step.1 with
      | error error =>
          have failed : parser.nextAndLater = .error error := by
            rw [nextAndLater, next, found]
            rfl
          rw [answers, failed, (run_of_step_error standing found).1]
          rfl
      | ok declaration? =>
          have shorter : parser.step.2.tokens.length < parser.tokens.length := by
            obtain ⟨rest, notes, after, _, _, ⟨_, _, _, shorter⟩ | ⟨_, failed, _⟩⟩ :=
              parser.step_cases
            · rwa [after]
            · cases found.symm.trans failed
          have called : parser.nextAndLater = .ok (declaration?,
              if parser.step.2.tokens.isEmpty then none else some parser.step.2) := by
            rw [nextAndLater, next, found]
            rfl
          rw [answers, called, (run_of_step_ok found).1]
          by_cases ended : parser.step.2.tokens = []
          · rw [run_of_ended ended, if_pos (List.isEmpty_iff.2 ended)]
            rfl
          · rw [if_neg (by simpa using ended)]
            dsimp only [declarationsAmong]
            rw [ih ended (by omega)]
            cases parser.step.2.run.result <;> rfl

/-- Calls on a text and on what each of them leaves answer as one parser over the text does, and the
declarations of the text are the items among the answers. -/
theorem answers_of_text {owner : Option String} {parser : Parser} {text : List Char}
    (start : ofText owner text = .ok parser) (standing : parser.tokens ≠ []) :
    (∀ count, answers (itemAndRest owner) id count text =
        answers nextAndLater remaining count parser) ∧
      ∀ count, parser.tokens.length ≤ count →
        declarationsAmong (answers (itemAndRest owner) id count text) =
          ((declarationsOf owner text).map Prod.fst).mapError ParseError.unplaced := by
  have same := answers_of_resumes (.start start)
  refine ⟨same, fun count enough => ?_⟩
  have whole : (declarationsOf owner text).map Prod.fst = parser.run.result := by
    rw [declarationsOf, start]
    change Except.map Prod.fst parser.emission = _
    rw [emission, declarations]
    cases parser.run.result <;> rfl
  rw [same, whole, declarationsAmong_answers standing enough]

theorem answers_of_two_declarations : ∃ parser : Parser,
    ofText none "int n; P z;".toList = .ok parser ∧ parser.tokens ≠ [] ∧
    (∀ count, answers (itemAndRest none) id count "int n; P z;".toList =
      answers nextAndLater remaining count parser) ∧
    ∀ count, parser.tokens.length ≤ count →
      declarationsAmong (answers (itemAndRest none) id count "int n; P z;".toList) =
        ((declarationsOf none "int n; P z;".toList).map Prod.fst).mapError ParseError.unplaced := by
  let tokens : List Token := [⟨.keyword .int, 0, [' ']⟩, ⟨.identifier "n", 4, []⟩,
    ⟨.punctuation .semicolon, 5, [' ']⟩, ⟨.identifier "P", 7, [' ']⟩, ⟨.identifier "z", 9, []⟩,
    ⟨.punctuation .semicolon, 10, []⟩]
  have start : ofText none "int n; P z;".toList = .ok ⟨.top, [], tokens, []⟩ := by cbv
  have standing : tokens ≠ [] := List.cons_ne_nil _ _
  exact ⟨_, start, standing, answers_of_text start standing⟩

end PxdStub.Parser
