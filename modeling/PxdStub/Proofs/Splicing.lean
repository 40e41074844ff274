import PxdStub.Proofs.CodeLines
import PxdStub.Proofs.Markers

/-!
The code of a header while comments are cut out of it: pieces without margins, put together with one
blank between them.
-/

namespace PxdStub

/-! ### Code with a margin -/

namespace Header

/-- A text with one blank in front of it; an empty one needs none. -/
def padded (text : List Char) : List Char :=
  if text = [] then [] else ' ' :: text

theorem padded_of_some {text : List Char} (some : text ≠ []) : padded text = ' ' :: text :=
  if_neg some

theorem splice_of_some {before : List Char} (some : before ≠ []) (after : List Char) :
    splice before after = before ++ padded after := by
  rw [splice, if_neg (by simpa using some), padded]
  by_cases none : after = []
  · simp [none]
  · simp [none]

theorem splice_nil (after : List Char) : splice [] after = after := by
  rw [splice, if_pos (by rfl)]

theorem padded_splice (before after : List Char) :
    padded (splice before after) = padded before ++ padded after := by
  by_cases none : before = []
  · rw [none, splice_nil]
    rfl
  · have some : splice before after ≠ [] := by
      rw [splice_of_some none]
      simp [none]
    rw [padded_of_some some, splice_of_some none, padded_of_some none]
    rfl

theorem isTrimmed_splice {before after : List Char} (trimmed : Text.IsTrimmed before)
    (trimmed' : Text.IsTrimmed after) : Text.IsTrimmed (splice before after) := by
  by_cases none : before = []
  · rwa [none, splice_nil]
  · rw [splice_of_some none]
    by_cases none' : after = []
    · rwa [none', padded, if_pos rfl, List.append_nil]
    · obtain ⟨c, before, rfl⟩ := List.exists_cons_of_ne_nil none
      refine ⟨fun d head => trimmed.head d head, fun d last => trimmed'.last d ?_⟩
      rw [padded_of_some none', List.getLast?_append_of_ne_nil _ (List.cons_ne_nil _ _)] at last
      rwa [List.getLast?_cons_of_ne_nil none'] at last

/-- Trimmed lines behind each other, each with a margin, are one trimmed text with a margin. -/
theorem exists_padded {lines : List (List Char)}
    (trimmed : ∀ line ∈ lines, Text.IsTrimmed line ∧ line ≠ []) :
    ∃ text, Text.IsTrimmed text ∧ lines.flatMap (' ' :: ·) = padded text := by
  induction lines with
  | nil => exact ⟨[], .nil, rfl⟩
  | cons line lines ih =>
      obtain ⟨⟨here, some⟩, more⟩ := List.forall_mem_cons.1 trimmed
      obtain ⟨text, there, same⟩ := ih more
      refine ⟨splice line text, isTrimmed_splice here there, ?_⟩
      rw [padded_splice, List.flatMap_cons, same, padded_of_some some]

theorem trim_padded {text : List Char} (trimmed : Text.IsTrimmed text) :
    Text.trim (padded text) = text := by
  by_cases none : text = []
  · rw [none]
    rfl
  · rw [padded_of_some none]
    exact trimmed.trim_eq

theorem trimRight_padded (text : List Char) :
    Text.trimRight (' ' :: text) = padded (Text.trimRight text) := by
  rw [← List.singleton_append, Text.trimRight_append, padded]
  rfl

theorem trim_append_padded {front text : List Char} (trimmed : Text.IsTrimmed front)
    (some : front ≠ []) (head : ∀ c ∈ text.head?, Text.isBlank c = false) :
    Text.trim (front ++ ' ' :: text) = front ++ padded (Text.trim text) := by
  have start : Text.trimLeft (front ++ ' ' :: text) = front ++ ' ' :: text := by
    refine Text.trimLeft_of_head fun c first => trimmed.head c ?_
    rwa [List.head?_append_of_ne_nil _ some] at first
  rw [Text.trim, start, Text.trimRight_append, trimRight_padded, Text.trim,
    Text.trimLeft_of_head head]
  split
  · next none => rw [none, trimmed.trimRight_eq, List.append_nil]
  · rfl

/-! ### Cutting comments -/

theorem withoutComments_of_find? {text : List Char} {region : Region}
    (found : Region.find? .comment text = .ok (some region)) :
    withoutComments text = withoutComments (splice region.before region.after) := by
  rw [withoutComments]
  split
  · next found' =>
      cases found.symm.trans found'
      rfl
  · next found' => cases found.symm.trans found'
  · next found' => cases found.symm.trans found'

theorem withoutComments_of_cut? {text : List Char}
    (plain : Text.cut? Delimiter.comment.opening text = none) :
    withoutComments text = .ok text := by
  have none := Region.find?_eq_none_iff.2 plain
  rw [withoutComments]
  split
  · next found => cases none.symm.trans found
  · rfl
  · next found => cases none.symm.trans found

end Header

end PxdStub
