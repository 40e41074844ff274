import PxdStub.Region

/-!
Removing block comments from text. The first comment is cut out and what stands on its two sides is
joined by one space, until no comment is left. A comment that opens inside another one has to close
before the outer one does.
-/

namespace PxdStub.Header

/-- Two pieces of text around something cut out: one space stands between them, and none when one
of them is empty. -/
def splice (before after : List Char) : List Char :=
  if before.isEmpty then after
  else if after.isEmpty then before
  else before ++ ' ' :: after

theorem length_trim_le (text : List Char) : (Text.trim text).length ≤ text.length := by
  have left := (List.dropWhile_sublist Text.isBlank (l := text)).length_le
  have right := (List.dropWhile_sublist Text.isBlank
    (l := (text.dropWhile Text.isBlank).reverse)).length_le
  simp only [Text.trim, Text.trimRight, Text.trimLeft, List.length_reverse] at *
  omega

theorem length_splice_le (before after : List Char) :
    (splice before after).length ≤ before.length + after.length + 1 := by
  unfold splice
  split
  · omega
  · split
    · omega
    · simp; omega

theorem length_splice_region {text : List Char} {region : Region}
    (found : Region.find? .comment text = .ok (some region)) :
    (splice region.before region.after).length < text.length := by
  unfold Region.find? at found
  split at found
  · cases found
  · next before behind opened =>
    split at found
    · next inside after closed =>
      cases found
      have whole := congrArg List.length (Text.eq_of_cut? opened)
      have tail := congrArg List.length (Delimiter.eq_of_close? closed)
      refine Nat.lt_of_le_of_lt (length_splice_le _ _) ?_
      dsimp only
      have left := length_trim_le before
      have right := length_trim_le after
      simp only [List.length_append, Delimiter.opening, Delimiter.closing, List.length_cons,
        List.length_nil] at whole tail
      omega
    · cases found

/-- Text that is already trimmed, without its block comments. The error gives the place of the
opening marker in the text as it stands then. -/
def withoutComments (text : List Char) : Except ParseError (List Char) :=
  match _found : Region.find? .comment text with
  | .ok (some region) => withoutComments (splice region.before region.after)
  | .ok none => .ok text
  | .error _ =>
      let before := (Text.cut? Delimiter.comment.opening text).elim [] Prod.fst
      .error (.unclosedComment (Text.size before))
termination_by text.length
decreasing_by exact length_splice_region _found

def stripComments (text : List Char) : Except ParseError (List Char) :=
  withoutComments (Text.trim text)

end PxdStub.Header
