import PxdStub.Proofs.LiteralFrames
import PxdStub.Proofs.NormalForm

/-!
Comments are cut out one at a time, and after every cut the text is read from its front again. One
pass from left to right gives the same: what is spliced together makes no new marker, and the
margins that a cut trims away are those that the segments of the pass lose in the end.
-/

namespace PxdStub

namespace Header

/-- One pass over a text that begins inside `depth` comments: the segments outside of comments, and
how many comments are open at the end. -/
def onePass : Nat → List Char → List (List Char) × Nat
  | 0, [] => ([[]], 0)
  | 0, '/' :: '*' :: rest => ([] :: (onePass 1 rest).1, (onePass 1 rest).2)
  | 0, c :: rest => ((onePass 0 rest).1.modifyHead (c :: ·), (onePass 0 rest).2)
  | depth + 1, [] => ([], depth + 1)
  | depth + 1, '/' :: '*' :: rest => onePass (depth + 2) rest
  | depth + 1, '*' :: '/' :: rest => onePass depth rest
  | depth + 1, _ :: rest => onePass (depth + 1) rest

/-- The segments of a pass in one text: each is trimmed, empty ones are left out, and one blank
stands between two others. -/
def joined (segments : List (List Char)) : List Char :=
  [' '].intercalate ((segments.map Text.trim).filter (· ≠ []))

/-- The text in front of a comment that opens behind the last segment. -/
def inFront (segments : List (List Char)) : List Char :=
  let last := Text.trimLeft (segments.getLast?.getD [])
  if joined segments.dropLast = [] then last else joined segments.dropLast ++ ' ' :: last

/-- What a pass comes to. A comment that is open at the end is an error, at the place where the
outermost one of those began. -/
def passOutcome : List (List Char) × Nat → Except ParseError (List Char)
  | (segments, 0) => .ok (joined segments)
  | (segments, _ + 1) => .error (.unclosedComment (Text.size (inFront segments)))

/-! ### The pass, step by step -/

section

-- the equations of the pass overlap, and are made here once for all proofs
attribute [local simp] onePass

variable {c : Char} {rest : List Char} {depth : Nat}

theorem onePass_of_text (opens : Text.after? Delimiter.comment.opening (c :: rest) = none) :
    onePass 0 (c :: rest) =
      ((onePass 0 rest).1.modifyHead (c :: ·), (onePass 0 rest).2) := by
  have other := Text.after?_pair_eq_none.1 opens
  rw [onePass]
  rintro rest' rfl rfl
  exact other rfl rfl

theorem onePass_of_comment (opens : Text.after? Delimiter.comment.opening (c :: rest) = none)
    (closes : Text.after? Delimiter.comment.closing (c :: rest) = none) :
    onePass (depth + 1) (c :: rest) = onePass (depth + 1) rest := by
  have other := Text.after?_pair_eq_none.1 opens
  have other' := Text.after?_pair_eq_none.1 closes
  rw [onePass]
  · rintro rest' rfl rfl
    exact other rfl rfl
  · rintro rest' rfl rfl
    exact other' rfl rfl

end

/-! ### Cuts and the pass -/

theorem onePass_of_cut?_none {text : List Char}
    (none : Text.cut? Delimiter.comment.opening text = none) : onePass 0 text = ([text], 0) := by
  induction text with
  | nil => rw [onePass]
  | cons c rest ih =>
      rw [Text.cut?] at none
      split at none
      · cases none
      · next opens =>
          rw [onePass_of_text opens, ih (Option.map_eq_none_iff.1 none)]
          rfl

theorem onePass_of_cut? {text before behind : List Char}
    (opened : Text.cut? Delimiter.comment.opening text = some (before, behind)) :
    onePass 0 text = (before :: (onePass 1 behind).1, (onePass 1 behind).2) := by
  induction text generalizing before with
  | nil => cases opened
  | cons c rest ih =>
      rw [Text.cut?] at opened
      split at opened
      · next opens =>
          cases opened
          rw [Text.after?_eq_some_iff.1 opens]
          exact onePass.eq_2 _
      · next opens =>
          obtain ⟨⟨before', behind'⟩, later, same⟩ := Option.map_eq_some_iff.1 opened
          cases same
          rw [onePass_of_text opens, ih later]
          rfl

theorem onePass_ne_nil (text : List Char) : (onePass 0 text).1 ≠ [] := by
  cases opened : Text.cut? Delimiter.comment.opening text with
  | none => simp [onePass_of_cut?_none opened]
  | some parts => simp [onePass_of_cut? opened]

theorem onePass_of_close? {depth : Nat} {text inside after : List Char}
    (closed : Delimiter.comment.close? depth text = some (inside, after)) :
    onePass (depth + 1) text = onePass 0 after := by
  fun_induction Delimiter.close? .comment depth text generalizing inside with
  | case1 => cases closed
  | case2 depth c rest behind opens ih =>
      obtain ⟨⟨inner, after'⟩, later, same⟩ := Option.map_eq_some_iff.1 closed
      cases same
      rw [Text.after?_eq_some_iff.1 opens]
      exact (onePass.eq_5 depth behind).trans (ih later)
  | case3 c rest opens behind closes =>
      cases closed
      rw [Text.after?_eq_some_iff.1 closes]
      exact onePass.eq_6 0 after
  | case4 c rest opens behind closes outer ih =>
      obtain ⟨⟨inner, after'⟩, later, same⟩ := Option.map_eq_some_iff.1 closed
      cases same
      rw [Text.after?_eq_some_iff.1 closes]
      exact (onePass.eq_6 (outer + 1) behind).trans (ih later)
  | case5 depth c rest opens closes ih =>
      obtain ⟨⟨inner, after'⟩, later, same⟩ := Option.map_eq_some_iff.1 closed
      cases same
      rw [onePass_of_comment opens closes, ih later]

theorem exists_onePass_of_close?_none {depth : Nat} {text : List Char}
    (closed : Delimiter.comment.close? depth text = none) :
    ∃ left, onePass (depth + 1) text = ([], left + 1) := by
  fun_induction Delimiter.close? .comment depth text with
  | case1 depth => exact ⟨depth, by rw [onePass]⟩
  | case2 depth c rest behind opens ih =>
      rw [Text.after?_eq_some_iff.1 opens]
      obtain ⟨left, later⟩ := ih (Option.map_eq_none_iff.1 closed)
      exact ⟨left, (onePass.eq_5 depth behind).trans later⟩
  | case3 => cases closed
  | case4 c rest opens behind closes outer ih =>
      rw [Text.after?_eq_some_iff.1 closes]
      obtain ⟨left, later⟩ := ih (Option.map_eq_none_iff.1 closed)
      exact ⟨left, (onePass.eq_6 (outer + 1) behind).trans later⟩
  | case5 depth c rest opens closes ih =>
      rw [onePass_of_comment opens closes]
      exact ih (Option.map_eq_none_iff.1 closed)

/-! ### Margins -/

theorem not_mem_marker {c : Char} (blank : Text.isBlank c) :
    c ∉ Delimiter.comment.opening ∧ c ∉ Delimiter.comment.closing := by
  refine ⟨fun mem => ?_, fun mem => ?_⟩
  all_goals
    simp only [Delimiter.opening, Delimiter.closing, List.mem_cons, List.not_mem_nil,
      or_false] at mem
    obtain rfl | rfl := mem <;> cases blank

section

variable {margin : List Char} (blanks : ∀ c ∈ margin, Text.isBlank c)

include blanks

theorem not_mem_of_blanks {c : Char} (ink : Text.isBlank c = false) : c ∉ margin := by
  intro mem
  cases ink.symm.trans (blanks c mem)

theorem cut?_append_blanks (text : List Char) :
    Text.cut? Delimiter.comment.opening (text ++ margin) =
      (Text.cut? Delimiter.comment.opening text).map fun (before, behind) =>
        (before, behind ++ margin) := by
  cases margin with
  | nil => simp
  | cons c more =>
      have slash : '/' ∉ c :: more := not_mem_of_blanks blanks (by decide)
      have none : Text.cut? Delimiter.comment.opening (c :: more) = none := by
        have cut := @Text.cut?_of_not_mem ['*'] _ _ slash []
        rwa [List.append_nil] at cut
      rw [Text.cut?_append (not_mem_marker (blanks c List.mem_cons_self)).1, none]
      cases Text.cut? Delimiter.comment.opening text <;> rfl

theorem cut?_blanks_append (text : List Char) :
    Text.cut? Delimiter.comment.opening (margin ++ text) =
      (Text.cut? Delimiter.comment.opening text).map fun (before, behind) =>
        (margin ++ before, behind) :=
  Text.cut?_of_not_mem (not_mem_of_blanks blanks (by decide)) text

theorem close?_blanks (depth : Nat) : Delimiter.comment.close? depth margin = none := by
  induction margin with
  | nil => rw [Delimiter.close?]
  | cons c more ih =>
      obtain ⟨blank, blanks⟩ := List.forall_mem_cons.1 blanks
      have opens : Text.after? Delimiter.comment.opening (c :: more) = none :=
        Text.after?_pair_eq_none.2 fun same => absurd (same ▸ blank) (by decide)
      have closes : Text.after? Delimiter.comment.closing (c :: more) = none :=
        Text.after?_pair_eq_none.2 fun same => absurd (same ▸ blank) (by decide)
      rw [Delimiter.close?_of_other opens closes, ih blanks]
      rfl

theorem close?_append_blanks (depth : Nat) (text : List Char) :
    Delimiter.comment.close? depth (text ++ margin) =
      (Delimiter.comment.close? depth text).map fun (inside, after) =>
        (inside, after ++ margin) := by
  cases margin with
  | nil => simp
  | cons c more =>
      have apart := not_mem_marker (blanks c List.mem_cons_self)
      cases closed : Delimiter.comment.close? depth text with
      | some parts => exact Delimiter.close?_append apart.1 apart.2 closed more
      | none =>
          obtain ⟨depth', passed⟩ := Delimiter.close?_append_of_none apart.1 apart.2 closed
          rw [passed, close?_blanks blanks]
          rfl

theorem trimLeft_blanks_append (text : List Char) :
    Text.trimLeft (margin ++ text) = Text.trimLeft text :=
  List.dropWhile_append_of_pos blanks

end

/-! ### Segments put together -/

theorem padded_injective {text text' : List Char} (same : padded text = padded text') :
    text = text' := by
  rw [padded, padded] at same
  split at same <;> split at same <;> simp_all

theorem padded_joined (segments : List (List Char)) : padded (joined segments) =
    ((segments.map Text.trim).filter (· ≠ [])).flatMap (' ' :: ·) := by
  have some : ∀ segment ∈ (segments.map Text.trim).filter (· ≠ []), segment ≠ [] :=
    fun segment mem => of_decide_eq_true (List.mem_filter.1 mem).2
  rw [joined]
  cases kept : (segments.map Text.trim).filter (· ≠ []) with
  | nil => rfl
  | cons first more =>
      have whole := cons_intercalate (List.cons_ne_nil first more)
      rw [← whole]
      refine padded_of_some fun none => some first (kept ▸ List.mem_cons_self) ?_
      rw [none, List.flatMap_cons] at whole
      exact (List.append_eq_nil_iff.1 (List.cons.inj whole).2.symm).1

theorem joined_cons (segment : List Char) (more : List (List Char)) :
    joined (segment :: more) = splice (Text.trim segment) (joined more) := by
  refine padded_injective ?_
  rw [padded_splice, padded_joined, padded_joined, List.map_cons]
  by_cases none : Text.trim segment = []
  · rw [List.filter_cons_of_neg (by simpa using none), none]
    rfl
  · rw [List.filter_cons_of_pos (by simpa using none), padded_of_some none, List.flatMap_cons]

theorem splice_assoc (a b c : List Char) : splice (splice a b) c = splice a (splice b c) := by
  refine padded_injective ?_
  rw [padded_splice, padded_splice, padded_splice, padded_splice, List.append_assoc]

theorem joined_singleton (segment : List Char) : joined [segment] = Text.trim segment := by
  refine padded_injective ?_
  rw [joined_cons, padded_splice]
  exact List.append_nil _

/-- Two segments in front of another one can be put together before the pass ends. -/
theorem passOutcome_cons_cons (first next : List Char) {more : List (List Char)} (some : more ≠ [])
    (depth : Nat) : passOutcome (first :: next :: more, depth) =
      passOutcome (splice (Text.trim first) (Text.trim next) :: more, depth) := by
  have trimmed := isTrimmed_splice (Text.isTrimmed_trim first) (Text.isTrimmed_trim next)
  have together : ∀ more, joined (first :: next :: more) =
      joined (splice (Text.trim first) (Text.trim next) :: more) := by
    intro more
    rw [joined_cons, joined_cons, joined_cons, trimmed.trim_eq, splice_assoc]
  obtain ⟨last, more, rfl⟩ := List.exists_cons_of_ne_nil some
  cases depth with
  | zero => rw [passOutcome, passOutcome, together]
  | succ depth =>
      rw [passOutcome, passOutcome, inFront, inFront, List.dropLast_cons_cons,
        List.dropLast_cons_cons, List.dropLast_cons_cons, together, List.getLast?_cons_cons,
        List.getLast?_cons_cons, List.getLast?_cons_cons]

/-! ### One cut and the pass -/

theorem withoutComments_of_close?_none {text before behind : List Char}
    (opened : Text.cut? Delimiter.comment.opening text = some (before, behind))
    (closed : Delimiter.comment.close? 0 behind = none) :
    withoutComments text = .error (.unclosedComment (Text.size before)) := by
  obtain ⟨context, unclosed⟩ := Region.find?_of_unclosed opened closed
  rw [withoutComments]
  split
  · next found => cases unclosed.symm.trans found
  · next found => cases unclosed.symm.trans found
  · rw [opened]
    rfl

section

variable {front : List Char} (trimmed : Text.IsTrimmed front)

include trimmed

theorem inFront_pair (before : List Char) : inFront [front, before] =
    if front = [] then Text.trimLeft before else front ++ ' ' :: Text.trimLeft before := by
  rw [inFront, List.dropLast_cons_cons, List.dropLast_singleton, joined_singleton, trimmed.trim_eq]
  rfl

theorem trim_inFront (before : List Char) :
    Text.trim (inFront [front, before]) = splice front (Text.trim before) := by
  rw [inFront_pair trimmed]
  split
  · next none =>
      rw [none, splice_nil, Text.trim, Text.trimLeft_of_head (Text.head_trimLeft before)]
      rfl
  · next some =>
      rw [trim_append_padded trimmed some (Text.head_trimLeft before), splice_of_some some,
        Text.trim, Text.trimLeft_of_head (Text.head_trimLeft before)]
      rfl

/-- No comment opens in front of the first one. -/
theorem cut?_front {text before behind : List Char}
    (cut : Text.cut? Delimiter.comment.opening text = some (inFront [front, before], behind)) :
    Text.cut? Delimiter.comment.opening (splice front (Text.trim before)) = none := by
  rw [← trim_inFront trimmed]
  refine Text.cut?_of_not_infix fun within => ?_
  refine Text.not_infix_of_cut? cut (List.cons_ne_nil _ _) ?_
  exact (within.trans (Text.isInfix_trim _)).trans (List.prefix_append _ _).isInfix

variable (plain : Text.cut? Delimiter.comment.opening front = none)

include plain

theorem cut?_splice {core : List Char} (head : ∀ c ∈ core.head?, Text.isBlank c = false) :
    Text.cut? Delimiter.comment.opening (splice front core) =
      (Text.cut? Delimiter.comment.opening core).map fun (before, behind) =>
        (inFront [front, before], behind) := by
  have same : ∀ before behind, Text.cut? Delimiter.comment.opening core = some (before, behind) →
      Text.trimLeft before = before := by
    intro before behind opened
    refine Text.trimLeft_of_head (Text.head_of_isPrefix ?_ head)
    rw [Text.eq_of_cut? opened, List.append_assoc]
    exact List.prefix_append _ _
  by_cases none : front = []
  · rw [none, splice_nil]
    cases opened : Text.cut? Delimiter.comment.opening core with
    | none => rfl
    | some parts =>
        obtain ⟨before, behind⟩ := parts
        dsimp only [Option.map_some]
        rw [inFront_pair .nil, if_pos rfl, same _ _ opened]
  · by_cases none' : core = []
    · rw [none', splice_of_some none, padded, if_pos rfl, List.append_nil, plain]
      rfl
    · have blank : '/' ∉ [' '] := by decide
      rw [splice_of_some none, padded_of_some none', Text.cut?_append (by decide), plain]
      dsimp only
      rw [← List.singleton_append, Delimiter.opening, Text.cut?_of_not_mem blank, Option.map_map]
      cases opened : Text.cut? ['/', '*'] core with
      | none => rfl
      | some parts =>
          obtain ⟨before, behind⟩ := parts
          dsimp only [Option.map_some]
          rw [inFront_pair trimmed, if_neg none, same _ _ opened]
          rfl

/-- Cutting one comment after the other comes to what the pass comes to. -/
theorem withoutComments_splice (rest : List Char) :
    withoutComments (splice front (Text.trim rest)) =
      passOutcome (front :: (onePass 0 rest).1, (onePass 0 rest).2) := by
  induction size : rest.length using Nat.strong_induction_on generalizing front rest with
  | _ bound ih =>
      obtain ⟨start, ending, blanks, blanks', whole⟩ := Text.exists_trim rest
      have cut := cut?_splice trimmed plain (Text.isTrimmed_trim rest).head
      have cut' : Text.cut? Delimiter.comment.opening rest =
          (Text.cut? Delimiter.comment.opening (Text.trim rest)).map fun (before, behind) =>
            (start ++ before, behind ++ ending) := by
        conv_lhs => rw [whole, cut?_blanks_append blanks, cut?_append_blanks blanks']
        rw [Option.map_map]
        rfl
      cases opened : Text.cut? Delimiter.comment.opening (Text.trim rest) with
      | none =>
          rw [opened] at cut cut'
          rw [withoutComments_of_cut? cut, onePass_of_cut?_none cut', passOutcome, joined_cons,
            joined_singleton, trimmed.trim_eq]
      | some parts =>
          obtain ⟨before, behind⟩ := parts
          rw [opened] at cut cut'
          rw [Option.map_some] at cut cut'
          have closed' := close?_append_blanks blanks' 0 behind
          rw [onePass_of_cut? cut']
          cases closed : Delimiter.comment.close? 0 behind with
          | none =>
              rw [closed] at closed'
              obtain ⟨left, later⟩ := exists_onePass_of_close?_none closed'
              rw [withoutComments_of_close?_none cut closed, later, passOutcome,
                inFront_pair trimmed, inFront_pair trimmed, trimLeft_blanks_append blanks]
          | some parts =>
              obtain ⟨inside, after⟩ := parts
              rw [closed] at closed'
              have found := Region.find?_eq_some_iff.2 ⟨_, _, _, _, cut, closed, rfl⟩
              have shorter : (after ++ ending).length < bound := by
                have length := congrArg List.length
                  ((Text.eq_of_cut? cut').trans (congrArg _ (Delimiter.eq_of_close? closed')))
                simp only [Delimiter.opening, Delimiter.closing, List.length_append,
                  List.length_cons] at length
                rw [List.length_append]
                omega
              have trimmed' := isTrimmed_splice trimmed (Text.isTrimmed_trim before)
              have inner : Text.trim (start ++ before) = Text.trim before := by
                rw [Text.trim, Text.trim, trimLeft_blanks_append blanks]
              rw [withoutComments_of_find? found, trim_inFront trimmed,
                ← Text.trim_append_blanks blanks' after,
                ih _ shorter trimmed' (cut?_front trimmed cut) _ rfl,
                onePass_of_close? closed', passOutcome_cons_cons _ _ (onePass_ne_nil _),
                trimmed.trim_eq, inner]

end

theorem passOutcome_nil_cons {segments : List (List Char)} (some : segments ≠ []) (depth : Nat) :
    passOutcome ([] :: segments, depth) = passOutcome (segments, depth) := by
  have same : ∀ segments, joined ([] :: segments) = joined segments := by
    intro segments
    rw [joined_cons]
    exact splice_nil _
  cases depth with
  | zero => rw [passOutcome, passOutcome, same]
  | succ depth =>
      rw [passOutcome, passOutcome, inFront, inFront, List.dropLast_cons_of_ne_nil some, same,
        List.getLast?_cons_of_ne_nil some]

theorem cut?_of_withoutComments {text code : List Char} (found : withoutComments text = .ok code) :
    Text.cut? Delimiter.comment.opening code = none := by
  fun_induction withoutComments text with
  | case1 text region _ ih => exact ih found
  | case2 text none =>
      cases found
      exact Region.find?_eq_none_iff.1 none
  | case3 => cases found

/-- Removing block comments from a text is one pass over the text. Every round of the removal leaves
a shorter text to read, and no comment opens in the text that is left in the end. -/
theorem stripComments_eq_passOutcome (text : List Char) :
    stripComments text = passOutcome (onePass 0 (Text.trim text)) ∧
      (∀ code, stripComments text = .ok code → ¬ Delimiter.comment.opening <:+: code) ∧
      ∀ (current : List Char) (region : Region), Region.find? .comment current = .ok (some region) →
        (splice region.before region.after).length < current.length := by
  refine ⟨?_, fun code found => ?_, fun current region => length_splice_region⟩
  · have whole := withoutComments_splice .nil rfl (Text.trim text)
    rw [splice_nil, (Text.isTrimmed_trim text).trim_eq] at whole
    rw [stripComments, whole]
    exact passOutcome_nil_cons (onePass_ne_nil _) _
  · exact Text.not_infix_of_cut?_none (cut?_of_withoutComments found) (Delimiter.opening_ne_nil _)

example : onePass 0 "a /* b /* c */ d */e/*/ f".toList =
    (["a ".toList, "e".toList], 1) := by cbv

end Header

end PxdStub
