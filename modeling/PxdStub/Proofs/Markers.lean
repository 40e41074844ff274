import PxdStub.Header
import PxdStub.Proofs.Reading

/-!
Marks in text: the first occurrence of a mark, and the marker that closes a region. Both stay where
they are when text comes behind that begins with a character of no mark, such as a blank. The
namespace of a text is read between such marks.
-/

namespace PxdStub

namespace Text

variable {mark : List Char} {c : Char}

theorem after?_append (apart : c ∉ mark) (text more : List Char) :
    after? mark (text ++ c :: more) = (after? mark text).map (· ++ c :: more) := by
  induction mark generalizing text with
  | nil => simp [after?]
  | cons s mark ih =>
      obtain ⟨other, behind⟩ := List.ne_and_not_mem_of_not_mem_cons apart
      cases text with
      | nil => simp [after?, Ne.symm other]
      | cons d text =>
          rw [List.cons_append, after?, after?, ih behind]
          split <;> rfl

theorem after?_pair_eq_none {a b : Char} {rest : List Char} :
    after? [a, b] (c :: rest) = none ↔ (c = a → rest.head? ≠ some b) := by
  cases rest with
  | nil => simp [after?]
  | cons d rest => simp [after?, eq_comm]

/-- The first mark is in the front if there is one. -/
theorem cut?_append (apart : c ∉ mark) (text more : List Char) :
    cut? mark (text ++ c :: more) =
      match cut? mark text with
      | some (before, behind) => some (before, behind ++ c :: more)
      | none => (cut? mark (c :: more)).map fun (before, behind) => (text ++ before, behind) := by
  induction text with
  | nil => simp [cut?]
  | cons d text ih =>
      have here := after?_append apart (d :: text) more
      rw [List.cons_append] at here ⊢
      rw [cut?, cut?, here, ih]
      cases after? mark (d :: text) with
      | some behind => rfl
      | none =>
          cases cut? mark text with
          | some parts => rfl
          | none => simp [Function.comp_def]

theorem cut?_of_not_mem {text : List Char} (within : c ∉ text) (more : List Char) :
    cut? (c :: mark) (text ++ more) =
      (cut? (c :: mark) more).map fun (before, behind) => (text ++ before, behind) := by
  induction text with
  | nil => simp
  | cons d text ih =>
      obtain ⟨other, behind⟩ := List.ne_and_not_mem_of_not_mem_cons within
      rw [List.cons_append, cut?, after?, if_neg other, ih behind, Option.map_map]
      rfl

/-- No mark begins in front of the first one. -/
theorem not_infix_of_cut? {text before behind : List Char}
    (found : cut? mark text = some (before, behind)) (some : mark ≠ []) :
    ¬ mark <:+: before ++ mark.dropLast := by
  induction text generalizing before with
  | nil => cases found
  | cons d text ih =>
      rw [cut?] at found
      split at found
      · cases found
        intro within
        have shorter := within.length_le
        have longer := List.length_pos_iff.2 some
        rw [List.nil_append, List.length_dropLast] at shorter
        omega
      · next other =>
          obtain ⟨⟨before', behind'⟩, later, same⟩ := Option.map_eq_some_iff.1 found
          cases same
          intro within
          obtain start | inner := List.infix_cons_iff.1 within
          · have whole : d :: (before' ++ mark.dropLast) <+: d :: text := by
              rw [eq_of_cut? later, List.append_assoc]
              refine (List.prefix_cons_inj d).2 ((List.prefix_append_right_inj before').2 ?_)
              exact (List.dropLast_prefix mark).trans (List.prefix_append mark behind)
            obtain ⟨rest, start⟩ := start.trans whole
            cases other.symm.trans (after?_eq_some_iff.2 start.symm)
          · exact ih later inner

theorem after?_of_not_infix {text : List Char} (without : ¬ mark <:+: text) :
    after? mark text = none := by
  cases found : after? mark text with
  | none => rfl
  | some behind =>
      refine absurd ?_ without
      rw [after?_eq_some_iff.1 found]
      exact (List.prefix_append mark behind).isInfix

theorem cut?_of_not_infix {text : List Char} (without : ¬ mark <:+: text) :
    cut? mark text = none := by
  cases found : cut? mark text with
  | none => rfl
  | some parts =>
      obtain ⟨before, behind⟩ := parts
      exact absurd ⟨before, behind, (eq_of_cut? found).symm⟩ without

theorem not_infix_of_cut?_none {text : List Char} (none : cut? mark text = none)
    (some : mark ≠ []) : ¬ mark <:+: text := by
  induction text with
  | nil => exact fun within => some (List.infix_nil.1 within)
  | cons d text ih =>
      rw [cut?] at none
      split at none
      · cases none
      · next other =>
          intro within
          obtain ⟨rest, start⟩ | inner := List.infix_cons_iff.1 within
          · cases other.symm.trans (after?_eq_some_iff.2 start.symm)
          · exact ih (Option.map_eq_none_iff.1 none) inner

end Text

namespace Delimiter

variable {delimiter : Delimiter} {depth : Nat}

theorem close?_of_opens {text behind : List Char}
    (opens : Text.after? delimiter.opening text = some behind) :
    delimiter.close? depth text = (delimiter.close? (depth + 1) behind).map fun (inside, after) =>
      (delimiter.opening ++ inside, after) := by
  have whole := Text.after?_eq_some_iff.1 opens
  obtain ⟨c, rest, rfl⟩ : ∃ c rest, text = c :: rest := by
    refine List.exists_cons_of_ne_nil fun none => delimiter.opening_ne_nil ?_
    exact (List.append_eq_nil_iff.1 (whole.symm.trans none)).1
  rw [close?]
  split
  · next found =>
      cases opens.symm.trans found
      rfl
  · next none => cases opens.symm.trans none

theorem close?_of_closes {text behind : List Char}
    (opens : Text.after? delimiter.opening text = none)
    (closes : Text.after? delimiter.closing text = some behind) :
    delimiter.close? depth text = match depth with
      | 0 => some ([], behind)
      | outer + 1 => (delimiter.close? outer behind).map fun (inside, after) =>
          (delimiter.closing ++ inside, after) := by
  have whole := Text.after?_eq_some_iff.1 closes
  obtain ⟨c, rest, rfl⟩ : ∃ c rest, text = c :: rest := by
    refine List.exists_cons_of_ne_nil fun none => delimiter.closing_ne_nil ?_
    exact (List.append_eq_nil_iff.1 (whole.symm.trans none)).1
  rw [close?]
  split
  · next found => cases opens.symm.trans found
  · split
    · next found =>
        cases closes.symm.trans found
        rfl
    · next none => cases closes.symm.trans none

theorem close?_of_other {c : Char} {rest : List Char}
    (opens : Text.after? delimiter.opening (c :: rest) = none)
    (closes : Text.after? delimiter.closing (c :: rest) = none) :
    delimiter.close? depth (c :: rest) =
      (delimiter.close? depth rest).map fun (inside, after) => (c :: inside, after) := by
  rw [close?]
  split
  · next found => cases opens.symm.trans found
  · split
    · next found => cases closes.symm.trans found
    · rfl

theorem close?_append {c : Char} (opening : c ∉ delimiter.opening) (closing : c ∉ delimiter.closing)
    {text inside after : List Char} (closed : delimiter.close? depth text = some (inside, after))
    (more : List Char) :
    delimiter.close? depth (text ++ c :: more) = some (inside, after ++ c :: more) := by
  fun_induction close? delimiter depth text generalizing inside with
  | case1 => cases closed
  | case2 depth d rest behind opened ih =>
      obtain ⟨⟨inner, rest'⟩, found, same⟩ := Option.map_eq_some_iff.1 closed
      cases same
      rw [close?_of_opens (by rw [Text.after?_append opening, opened]; rfl), ih found]
      rfl
  | case3 d rest opened behind shut =>
      cases closed
      rw [close?_of_closes (by rw [Text.after?_append opening, opened]; rfl)
        (by rw [Text.after?_append closing, shut]; rfl)]
  | case4 d rest opened behind shut outer ih =>
      obtain ⟨⟨inner, rest'⟩, found, same⟩ := Option.map_eq_some_iff.1 closed
      cases same
      rw [close?_of_closes (by rw [Text.after?_append opening, opened]; rfl)
        (by rw [Text.after?_append closing, shut]; rfl)]
      dsimp only
      rw [ih found]
      rfl
  | case5 depth d rest opened shut ih =>
      obtain ⟨⟨inner, rest'⟩, found, same⟩ := Option.map_eq_some_iff.1 closed
      cases same
      have opened' := Text.after?_append opening (d :: rest) more
      have shut' := Text.after?_append closing (d :: rest) more
      rw [opened, List.cons_append] at opened'
      rw [shut, List.cons_append] at shut'
      rw [List.cons_append, close?_of_other opened' shut', ih found]
      rfl

end Delimiter

namespace Region

variable {delimiter : Delimiter} {text : List Char}

theorem find?_eq_none_iff :
    find? delimiter text = .ok none ↔ Text.cut? delimiter.opening text = none := by
  rw [find?]
  split
  · next none => simp [none]
  · next opened => split <;> simp [opened]

theorem find?_eq_some_iff {region : Region} : find? delimiter text = .ok (some region) ↔
    ∃ before behind inside after, Text.cut? delimiter.opening text = some (before, behind) ∧
      delimiter.close? 0 behind = some (inside, after) ∧
      ⟨Text.trim before, Text.trim inside, Text.trim after⟩ = region := by
  rw [find?]
  split
  · next none => simp [none]
  · next opened => split <;> next closed => simp [opened, closed]

end Region

namespace Header

/-- What a text with an answer has: no keyword, or one in front of a name and a region of braces. -/
theorem extractNamespace_cases {code body : List Char} {name? : Option String}
    (found : extractNamespace code = .ok (name?, body)) :
    (name? = none ∧ body = code ∧ behindKeywords false code = []) ∨
    ∃ behind name rest region, behindKeywords false code = [behind] ∧
      namespaceName? behind = some (name, rest) ∧
      Region.find? (.bracket .curly) rest = .ok (some region) ∧
      name? = some (String.ofList name) ∧ body = region.inside := by
  rw [extractNamespace] at found
  split at found
  · next none =>
      cases found
      exact .inl ⟨rfl, rfl, none⟩
  · next behind single =>
      split at found
      · cases found
      · next name rest called =>
          obtain ⟨region?, here, done⟩ := Except.bind_ok_iff.1 found
          cases region? with
          | none => cases done
          | some region =>
              cases done
              exact .inr ⟨behind, name, rest, region, single, called, here, rfl, rfl⟩
  · cases found

end Header

end PxdStub
