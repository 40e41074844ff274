/-!
Fixed strings in text: what follows one at the start, and the cut at its first occurrence.
-/

namespace PxdStub.Text

/-- What is left of a list behind a given start; `none` when it starts otherwise. -/
def after? [DecidableEq α] : List α → List α → Option (List α)
  | [], rest => some rest
  | _ :: _, [] => none
  | s :: start, c :: rest => if s = c then after? start rest else none

theorem after?_eq_some_iff [DecidableEq α] {start text rest : List α} :
    after? start text = some rest ↔ text = start ++ rest := by
  induction start generalizing text with
  | nil => simp [after?]
  | cons s start ih =>
      cases text with
      | nil => simp [after?]
      | cons c text =>
          by_cases same : s = c
          · simp [after?, same, ih]
          · simp [after?, same, Ne.symm same]

def startsWith (start text : List Char) : Bool :=
  (after? start text).isSome

/-- The text before and behind the first occurrence of `mark`. -/
def cut? (mark : List Char) : List Char → Option (List Char × List Char)
  | [] => none
  | c :: rest =>
      match after? mark (c :: rest) with
      | some behind => some ([], behind)
      | none => (cut? mark rest).map fun (before, behind) => (c :: before, behind)

theorem eq_of_cut? {mark text before behind : List Char}
    (found : cut? mark text = some (before, behind)) : text = before ++ mark ++ behind := by
  induction text generalizing before with
  | nil => simp [cut?] at found
  | cons c rest ih =>
      rw [cut?] at found
      split at found
      · next behind' here =>
          cases found
          simpa using after?_eq_some_iff.1 here
      · obtain ⟨⟨before', behind'⟩, later, same⟩ := Option.map_eq_some_iff.1 found
        cases same
        simp [ih later]

end PxdStub.Text
