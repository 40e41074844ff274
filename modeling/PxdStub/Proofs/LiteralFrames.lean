import PxdStub.Proofs.Markers
import PxdStub.Proofs.Splicing

/-!
Texts with a place for a string literal. What trims a text, cuts it at a mark or looks for the end of
a region does the same with every payload in which there is none of its marks: no mark runs over a
quotation mark.
-/

namespace PxdStub

/-! ### Frames -/

namespace Text

/-- A text with a place for a string literal, or a text without one. -/
inductive Frame where
  | closed (text : List Char)
  | around (before after : List Char)

namespace Frame

/-- The text with a literal in its place. -/
def fill (payload : List Char) : Frame → List Char
  | closed text => text
  | around before after => before ++ '"' :: (payload ++ '"' :: after)

def IsClosed (frame : Frame) : Prop :=
  ∃ text, frame = closed text

def trim : Frame → Frame
  | closed text => closed (Text.trim text)
  | around before after => around (trimLeft before) (trimRight after)

/-- The frame with more text on its two sides. -/
def within (front behind : List Char) : Frame → Frame
  | closed text => closed (front ++ text ++ behind)
  | around before after => around (front ++ before) (after ++ behind)

theorem fill_within (front behind payload : List Char) (frame : Frame) :
    (frame.within front behind).fill payload = front ++ frame.fill payload ++ behind := by
  cases frame <;> simp [within, fill]

end Frame

theorem trimLeft_append_ink {c : Char} (ink : isBlank c = false) (front behind : List Char) :
    trimLeft (front ++ c :: behind) = trimLeft front ++ c :: behind := by
  rw [trimLeft, List.dropWhile_append, List.dropWhile_cons_of_neg (by simp [ink])]
  split
  · next none => rw [List.isEmpty_iff] at none; rw [trimLeft, none, List.nil_append]
  · rfl

theorem trimRight_append_ink {c : Char} (ink : isBlank c = false) (front behind : List Char) :
    trimRight (front ++ c :: behind) = front ++ c :: trimRight behind := by
  rw [trimRight_append, trimRight_cons_ink ink, if_neg (List.cons_ne_nil _ _)]

theorem Frame.trim_fill (payload : List Char) (frame : Frame) :
    Text.trim (frame.fill payload) = frame.trim.fill payload := by
  cases frame with
  | closed text => rfl
  | around before after =>
      have ink : isBlank '"' = false := rfl
      rw [fill, Text.trim, trimLeft_append_ink ink, trimRight_append_ink ink,
        trimRight_append_ink ink]
      rfl

/-! ### Cuts -/

variable {mark before after payload : List Char}

theorem cut?_fill_of_some {front behind : List Char} (apart : '"' ∉ mark)
    (found : cut? mark before = some (front, behind)) :
    cut? mark ((Frame.around before after).fill payload) =
      some (front, (Frame.around behind after).fill payload) := by
  rw [Frame.fill, cut?_append apart, found]
  rfl

theorem cut?_fill_of_none (apart : '"' ∉ mark) (none : cut? mark before = none)
    (plain : ¬ mark <:+: payload) (some : mark ≠ []) :
    cut? mark ((Frame.around before after).fill payload) =
      (cut? mark after).map fun (front, behind) =>
        ((Frame.around before front).fill payload, behind) := by
  have skip : ∀ more, cut? mark ('"' :: more) =
      (cut? mark more).map fun (front, behind) => ('"' :: front, behind) := by
    intro more
    have here : after? mark ('"' :: more) = .none := by
      obtain ⟨first, rest, rfl⟩ := List.exists_cons_of_ne_nil some
      rw [after?, if_neg (Ne.symm (List.ne_of_not_mem_cons apart))]
    rw [cut?, here]
  rw [Frame.fill, cut?_append apart, none, skip, cut?_append apart, cut?_of_not_infix plain, skip]
  cases cut? mark after <;> rfl

end Text

/-! ### Regions -/

namespace Delimiter

variable {delimiter : Delimiter} {depth : Nat} {c : Char}

theorem quote_not_mem (delimiter : Delimiter) :
    '"' ∉ delimiter.opening ∧ '"' ∉ delimiter.closing := by
  obtain (_ | _ | _ | _) | _ := delimiter <;> decide

/-- Where nothing closes in a text, the search goes on behind it at some depth. -/
theorem close?_append_of_none (opening : c ∉ delimiter.opening) (closing : c ∉ delimiter.closing)
    {text : List Char} (unclosed : delimiter.close? depth text = none) :
    ∃ depth', ∀ more, delimiter.close? depth (text ++ c :: more) =
      (delimiter.close? depth' (c :: more)).map fun (inside, after) => (text ++ inside, after) := by
  fun_induction close? delimiter depth text with
  | case1 depth => exact ⟨depth, fun more => by simp⟩
  | case2 depth d rest behind opened ih =>
      obtain ⟨depth', later⟩ := ih (Option.map_eq_none_iff.1 unclosed)
      refine ⟨depth', fun more => ?_⟩
      rw [close?_of_opens (by rw [Text.after?_append opening, opened]; rfl), later,
        Option.map_map, Text.after?_eq_some_iff.1 opened]
      simp [Function.comp_def]
  | case3 d rest opened behind shut => cases unclosed
  | case4 d rest opened behind shut outer ih =>
      obtain ⟨depth', later⟩ := ih (Option.map_eq_none_iff.1 unclosed)
      refine ⟨depth', fun more => ?_⟩
      rw [close?_of_closes (by rw [Text.after?_append opening, opened]; rfl)
        (by rw [Text.after?_append closing, shut]; rfl)]
      dsimp only
      rw [later, Option.map_map, Text.after?_eq_some_iff.1 shut]
      simp [Function.comp_def]
  | case5 depth d rest opened shut ih =>
      obtain ⟨depth', later⟩ := ih (Option.map_eq_none_iff.1 unclosed)
      refine ⟨depth', fun more => ?_⟩
      have opened' := Text.after?_append opening (d :: rest) more
      have shut' := Text.after?_append closing (d :: rest) more
      rw [opened, List.cons_append] at opened'
      rw [shut, List.cons_append] at shut'
      rw [List.cons_append, close?_of_other opened' shut', later, Option.map_map]
      simp [Function.comp_def]

/-- Text without marks is passed at any depth. -/
theorem close?_append_of_plain (opening : c ∉ delimiter.opening) (closing : c ∉ delimiter.closing)
    {text : List Char} (noOpening : ¬ delimiter.opening <:+: text)
    (noClosing : ¬ delimiter.closing <:+: text) (more : List Char) :
    delimiter.close? depth (text ++ c :: more) =
      (delimiter.close? depth (c :: more)).map fun (inside, after) => (text ++ inside, after) := by
  induction text with
  | nil => simp
  | cons d rest ih =>
      have opened := Text.after?_append opening (d :: rest) more
      have shut := Text.after?_append closing (d :: rest) more
      rw [Text.after?_of_not_infix noOpening, List.cons_append] at opened
      rw [Text.after?_of_not_infix noClosing, List.cons_append] at shut
      rw [List.cons_append, close?_of_other opened shut,
        ih (mt List.infix_cons noOpening) (mt List.infix_cons noClosing), Option.map_map]
      simp [Function.comp_def]

theorem close?_quote (delimiter : Delimiter) (depth : Nat) (more : List Char) :
    delimiter.close? depth ('"' :: more) =
      (delimiter.close? depth more).map fun (inside, after) => ('"' :: inside, after) := by
  obtain (_ | _ | _ | _) | _ := delimiter <;> exact close?_of_other rfl rfl

/-- Payloads without the marks of a delimiter. -/
structure Spares (delimiter : Delimiter) (payload : List Char) : Prop where
  opening : ¬ delimiter.opening <:+: payload
  closing : ¬ delimiter.closing <:+: payload

/-- The region around a literal closes in front of it, behind it or nowhere, whatever it holds. -/
theorem close?_fill (delimiter : Delimiter) (depth : Nat) (before after : List Char) :
    (∃ inside rest, ∀ payload, delimiter.close? depth ((Text.Frame.around before after).fill payload)
        = some (inside, (Text.Frame.around rest after).fill payload)) ∨
      (∃ inside rest, ∀ payload, delimiter.Spares payload →
        delimiter.close? depth ((Text.Frame.around before after).fill payload) =
          some ((Text.Frame.around before inside).fill payload, rest)) ∨
      ∀ payload, delimiter.Spares payload →
        delimiter.close? depth ((Text.Frame.around before after).fill payload) = none := by
  obtain ⟨opening, closing⟩ := delimiter.quote_not_mem
  cases closed : delimiter.close? depth before with
  | some parts =>
      obtain ⟨inside, rest⟩ := parts
      exact .inl ⟨inside, rest, fun payload => close?_append opening closing closed _⟩
  | none =>
      obtain ⟨depth', passed⟩ := close?_append_of_none opening closing closed
      have whole : ∀ payload, delimiter.Spares payload →
          delimiter.close? depth ((Text.Frame.around before after).fill payload) =
            (delimiter.close? depth' after).map fun (inside, rest) =>
              ((Text.Frame.around before inside).fill payload, rest) := by
        intro payload spares
        rw [Text.Frame.fill, passed, close?_quote,
          close?_append_of_plain opening closing spares.opening spares.closing, close?_quote,
          Option.map_map, Option.map_map, Option.map_map]
        rfl
      cases closed' : delimiter.close? depth' after with
      | some parts =>
          obtain ⟨inside, rest⟩ := parts
          refine .inr (.inl ⟨inside, rest, fun payload spares => ?_⟩)
          rw [whole payload spares, closed']
          rfl
      | none =>
          refine .inr (.inr fun payload spares => ?_)
          rw [whole payload spares, closed']
          rfl

end Delimiter

namespace Region

/-- A region in a text with one place for a literal. -/
structure Framed where
  before : Text.Frame
  inside : Text.Frame
  after : Text.Frame
  closed : before.IsClosed ∨ after.IsClosed

def Framed.fill (payload : List Char) (region : Framed) : Region :=
  ⟨region.before.fill payload, region.inside.fill payload, region.after.fill payload⟩

variable {delimiter : Delimiter}

theorem find?_of_unclosed {text before behind : List Char}
    (opened : Text.cut? delimiter.opening text = some (before, behind))
    (unclosed : delimiter.close? 0 behind = none) :
    ∃ context, find? delimiter text = .error (.unbalanced delimiter context) := by
  rw [find?, opened]
  dsimp only
  rw [unclosed]
  exact ⟨_, rfl⟩

/-- The region of a text as the frames of its parts. -/
theorem find?_eq_fill {text before behind : List Char} {payload : List Char}
    {frame inside after : Text.Frame} {closed : frame.trim.IsClosed ∨ after.trim.IsClosed}
    (opened : Text.cut? delimiter.opening text = some (before, behind))
    (shut : delimiter.close? 0 behind = some (inside.fill payload, after.fill payload))
    (front : before = frame.fill payload) :
    find? delimiter text =
      .ok (some (Framed.fill payload ⟨frame.trim, inside.trim, after.trim, closed⟩)) := by
  refine find?_eq_some_iff.2 ⟨_, _, _, _, opened, shut, ?_⟩
  rw [front, Text.Frame.trim_fill, Text.Frame.trim_fill, Text.Frame.trim_fill]
  rfl

/-- The first region of a text with a literal in it is found with any payload or with none. -/
theorem find?_fill (delimiter : Delimiter) (frame : Text.Frame) :
    (∀ payload, delimiter.Spares payload → find? delimiter (frame.fill payload) = .ok none) ∨
      (∃ region : Framed, ∀ payload, delimiter.Spares payload →
        find? delimiter (frame.fill payload) = .ok (some (region.fill payload))) ∨
      ∀ payload, delimiter.Spares payload →
        ∃ context, find? delimiter (frame.fill payload) = .error (.unbalanced delimiter context) := by
  have apart := delimiter.quote_not_mem.1
  have closed : ∀ text, (Text.Frame.closed text).trim.IsClosed := fun text => ⟨_, rfl⟩
  cases frame with
  | closed text =>
      cases opened : Text.cut? delimiter.opening text with
      | none => exact .inl fun _ _ => find?_eq_none_iff.2 opened
      | some parts =>
          obtain ⟨before, behind⟩ := parts
          cases shut : delimiter.close? 0 behind with
          | none => exact .inr (.inr fun _ _ => find?_of_unclosed opened shut)
          | some parts =>
              obtain ⟨inside, after⟩ := parts
              exact .inr (.inl ⟨⟨_, _, _, .inl (closed before)⟩, fun payload _ =>
                @find?_eq_fill _ _ _ _ payload (.closed before) (.closed inside) (.closed after)
                  _ opened shut rfl⟩)
  | around before after =>
      cases opened : Text.cut? delimiter.opening before with
      | some parts =>
          -- The region opens in front of the literal and may close on either side of it.
          obtain ⟨front, behind⟩ := parts
          have cut := fun payload =>
            @Text.cut?_fill_of_some _ before after payload front behind apart opened
          obtain ⟨inside, rest, shut⟩ | ⟨inside, rest, shut⟩ | unclosed :=
            delimiter.close?_fill 0 behind after
          · exact .inr (.inl ⟨⟨_, _, _, .inl (closed front)⟩, fun payload _ =>
              @find?_eq_fill _ _ _ _ payload (.closed front) (.closed inside) (.around rest after)
                _ (cut payload) (shut payload) rfl⟩)
          · exact .inr (.inl ⟨⟨_, _, _, .inl (closed front)⟩, fun payload spares =>
              @find?_eq_fill _ _ _ _ payload (.closed front) (.around behind inside) (.closed rest)
                _ (cut payload) (shut payload spares) rfl⟩)
          · exact .inr (.inr fun payload spares =>
              find?_of_unclosed (cut payload) (unclosed payload spares))
      | none =>
          have cut := fun payload (spares : delimiter.Spares payload) =>
            @Text.cut?_fill_of_none _ before after payload apart opened spares.opening
              delimiter.opening_ne_nil
          cases opened' : Text.cut? delimiter.opening after with
          | none =>
              refine .inl fun payload spares => find?_eq_none_iff.2 ?_
              rw [cut payload spares, opened']
              rfl
          | some parts =>
              obtain ⟨front, behind⟩ := parts
              rw [opened'] at cut
              cases shut : delimiter.close? 0 behind with
              | none => exact .inr (.inr fun payload spares =>
                  find?_of_unclosed (cut payload spares) shut)
              | some parts =>
                  obtain ⟨inside, rest⟩ := parts
                  exact .inr (.inl ⟨⟨_, _, _, .inr (closed rest)⟩, fun payload spares =>
                    @find?_eq_fill _ _ _ _ payload (.around before front) (.closed inside)
                      (.closed rest) _ (cut payload spares) shut rfl⟩)

end Region

end PxdStub
