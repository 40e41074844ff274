import PxdStub.Proofs.LiteralFrames
import PxdStub.Proofs.NamespaceWrapping
import PxdStub.Proofs.NormalForm

/-!
A header with a literal in it, up to the lexer. Lines are cleaned, comments are cut out and the
namespace is taken off before anything knows of literals. A payload that holds none of the marks
that these steps look for has no say in what they find.
-/

namespace PxdStub.Header

/-- Payloads that mean nothing to what reads a header in front of the lexer, nor to the lexer. -/
structure IsInert (payload : List Char) : Prop where
  unquoted : '"' ∉ payload
  unescaped : '\\' ∉ payload
  oneLine : '\n' ∉ payload
  noLineComment : ¬ ['/', '/'] <:+: payload
  noOpening : ¬ ['/', '*'] <:+: payload
  noClosing : ¬ ['*', '/'] <:+: payload
  noBraces : '{' ∉ payload ∧ '}' ∉ payload
  noKeyword : behindKeywords false payload = []

namespace IsInert

variable {payload : List Char}

/-- All marks of comments have a slash in them. -/
theorem of_no_slash (unquoted : '"' ∉ payload) (unescaped : '\\' ∉ payload)
    (oneLine : '\n' ∉ payload) (slash : '/' ∉ payload)
    (noBraces : '{' ∉ payload ∧ '}' ∉ payload) (noKeyword : behindKeywords false payload = []) :
    IsInert payload where
  unquoted := unquoted
  unescaped := unescaped
  oneLine := oneLine
  noLineComment within := slash (within.subset List.mem_cons_self)
  noOpening within := slash (within.subset List.mem_cons_self)
  noClosing within := slash (within.subset (List.mem_cons_of_mem _ List.mem_cons_self))
  noBraces := noBraces
  noKeyword := noKeyword

theorem nil : IsInert [] :=
  .of_no_slash List.not_mem_nil List.not_mem_nil List.not_mem_nil List.not_mem_nil
    ⟨List.not_mem_nil, List.not_mem_nil⟩ rfl

theorem spares_comment (inert : IsInert payload) : Delimiter.comment.Spares payload :=
  ⟨inert.noOpening, inert.noClosing⟩

theorem spares_curly (inert : IsInert payload) : (Delimiter.bracket .curly).Spares payload :=
  ⟨fun within => inert.noBraces.1 ((List.singleton_infix_iff _ _).1 within),
    fun within => inert.noBraces.2 ((List.singleton_infix_iff _ _).1 within)⟩

end IsInert

/-- Readings of a text that the payload of a literal in it has no say in: with any payload they fail
with the same sort of trouble, or with any payload they find the same. -/
inductive Steady (read : List Char → Except ParseError α) (fill : List Char → β → α) : Prop
  | error (trouble : Trouble) : (∀ payload, IsInert payload →
      ∃ error, read payload = .error error ∧ error.trouble = trouble) → Steady read fill
  | ok (value : β) : (∀ payload, IsInert payload → read payload = .ok (fill payload value)) →
      Steady read fill

namespace Steady

variable {read read' : List Char → Except ParseError α} {fill : List Char → β → α}

theorem congr (steady : Steady read fill)
    (same : ∀ payload, IsInert payload → read' payload = read payload) : Steady read' fill := by
  cases steady with
  | error trouble fails =>
      exact .error trouble fun payload inert => by rw [same payload inert]; exact fails payload inert
  | ok value finds =>
      exact .ok value fun payload inert => by rw [same payload inert]; exact finds payload inert

theorem bind {next : α → Except ParseError γ} {fill' : List Char → δ → γ}
    (steady : Steady read fill)
    (later : ∀ value, Steady (fun payload => next (fill payload value)) fill') :
    Steady (fun payload => read payload >>= next) fill' := by
  cases steady with
  | error trouble fails =>
      refine .error trouble fun payload inert => ?_
      obtain ⟨error, failed, same⟩ := fails payload inert
      exact ⟨error, by rw [failed]; rfl, same⟩
  | ok value finds =>
      exact (later value).congr fun payload inert => by rw [finds payload inert]; rfl

end Steady

/-! ### The normal form -/

open Text (Frame)

theorem exists_withoutLineComment_fill (before after : List Char) :
    ∃ frame : Frame, ∀ payload, IsInert payload →
      withoutLineComment ((Frame.around before after).fill payload) = frame.fill payload := by
  have apart : '"' ∉ ['/', '/'] := by decide
  have ink : Text.isBlank '"' = false := rfl
  cases opened : Text.cut? ['/', '/'] before with
  | some parts =>
      obtain ⟨front, behind⟩ := parts
      refine ⟨.closed (Text.trimRight front), fun payload _ => ?_⟩
      rw [withoutLineComment, Text.cut?_fill_of_some apart opened]
      rfl
  | none =>
      cases opened' : Text.cut? ['/', '/'] after with
      | some parts =>
          obtain ⟨front, behind⟩ := parts
          refine ⟨.around before (Text.trimRight front), fun payload inert => ?_⟩
          rw [withoutLineComment, Text.cut?_fill_of_none apart opened inert.noLineComment
            (List.cons_ne_nil _ _), opened']
          change Text.trimRight (before ++ '"' :: (payload ++ '"' :: front)) = _
          rw [Text.trimRight_append_ink ink, Text.trimRight_append_ink ink]
          rfl
      | none =>
          refine ⟨.around before after, fun payload inert => ?_⟩
          rw [withoutLineComment, Text.cut?_fill_of_none apart opened inert.noLineComment
            (List.cons_ne_nil _ _), opened']
          rfl

theorem exists_padded_fill (frame : Frame) :
    ∃ frame' : Frame, ∀ payload, padded (frame.fill payload) = frame'.fill payload := by
  cases frame with
  | closed text => exact ⟨.closed (padded text), fun _ => rfl⟩
  | around before after =>
      refine ⟨.around (' ' :: before) after, fun payload => ?_⟩
      rw [Frame.fill, padded_of_some (by simp)]
      rfl

/-- The code on the line of a literal. -/
theorem exists_codeLine?_fill (before after : List Char) :
    ∃ frame : Frame, ∀ payload, IsInert payload →
      (codeLine? ((Frame.around before after).fill payload)).toList.flatMap (' ' :: ·) =
        frame.fill payload := by
  have trimmed := fun payload => Frame.trim_fill payload (.around before after)
  have head : ∀ payload, isDirective ((Frame.around before after).trim.fill payload) =
      isDirective (Text.trimLeft before) := by
    intro payload
    rw [Frame.trim, Frame.fill]
    cases Text.trimLeft before <;> rfl
  cases plain : isDirective (Text.trimLeft before) with
  | true =>
      refine ⟨.closed [], fun payload _ => ?_⟩
      rw [codeLine?_of_isDirective (by rw [trimmed, head, plain])]
      rfl
  | false =>
      obtain ⟨frame, cut⟩ :=
        exists_withoutLineComment_fill (Text.trimLeft before) (Text.trimRight after)
      obtain ⟨frame', pads⟩ := exists_padded_fill frame
      refine ⟨frame', fun payload inert => ?_⟩
      rw [flatMap_codeLine? (by rw [trimmed, head, plain]), trimmed, ← pads, ← cut payload inert]
      rfl

theorem exists_codeLines_fill (frame : Frame) :
    ∃ frame' : Frame, ∀ payload, IsInert payload →
      (codeLines (frame.fill payload)).flatMap (' ' :: ·) = frame'.fill payload := by
  cases frame with
  | closed text => exact ⟨.closed ((codeLines text).flatMap (' ' :: ·)), fun _ _ => rfl⟩
  | around before after =>
      induction before using Text.induction_lines with
      | last line within =>
          have feed : ∀ payload, IsInert payload → ∀ {text}, '\n' ∉ text →
              '\n' ∉ (Frame.around line text).fill payload := by
            intro payload inert text ended
            simp [Frame.fill, within, inert.oneLine, ended]
          by_cases more : '\n' ∈ after
          · obtain ⟨ending, rest, rfl, ended⟩ := List.eq_append_cons_of_mem more
            obtain ⟨frame, code⟩ := exists_codeLine?_fill line ending
            refine ⟨frame.within [] ((codeLines rest).flatMap (' ' :: ·)), fun payload inert => ?_⟩
            have whole : (Frame.around line (ending ++ '\n' :: rest)).fill payload =
                (Frame.around line ending).fill payload ++ '\n' :: rest := by
              simp [Frame.fill]
            rw [whole, codeLines_append_feed (feed payload inert ended), List.flatMap_append,
              code payload inert, Frame.fill_within, List.nil_append]
          · obtain ⟨frame, code⟩ := exists_codeLine?_fill line after
            refine ⟨frame, fun payload inert => ?_⟩
            rw [codeLines_of_not_mem (feed payload inert more), code payload inert]
      | more line rest within ih =>
          obtain ⟨frame, code⟩ := ih
          refine ⟨frame.within ((codeLine? line).toList.flatMap (' ' :: ·)) [],
            fun payload inert => ?_⟩
          have whole : (Frame.around (line ++ '\n' :: rest) after).fill payload =
              line ++ '\n' :: (Frame.around rest after).fill payload := by
            simp [Frame.fill]
          rw [whole, codeLines_append_feed within, List.flatMap_append, code payload inert,
            Frame.fill_within, List.append_nil]

/-- Pieces around a cut, of which one has no place for a literal. -/
theorem exists_splice_fill {before after : Frame} (closed : before.IsClosed ∨ after.IsClosed) :
    ∃ frame : Frame, ∀ payload,
      splice (before.fill payload) (after.fill payload) = frame.fill payload := by
  obtain ⟨text, rfl⟩ | ⟨text, rfl⟩ := closed
  · by_cases none : text = []
    · refine ⟨after, fun payload => ?_⟩
      rw [none]
      exact splice_nil _
    · obtain ⟨frame, pads⟩ := exists_padded_fill after
      refine ⟨frame.within text [], fun payload => ?_⟩
      rw [Frame.fill_within, List.append_nil, ← pads]
      exact splice_of_some none _
  · cases before with
    | closed front => exact ⟨.closed (splice front text), fun _ => rfl⟩
    | around front behind =>
        refine ⟨.around front (behind ++ padded text), fun payload => ?_⟩
        rw [splice_of_some (by simp [Frame.fill])]
        simp [Frame.fill]

theorem withoutComments_of_error {text : List Char} {error : ParseError}
    (failed : Region.find? .comment text = .error error) :
    ∃ error', withoutComments text = .error error' ∧ error'.trouble = .malformedComment := by
  rw [withoutComments]
  split
  · next found => cases failed.symm.trans found
  · next found => cases failed.symm.trans found
  · exact ⟨_, rfl, rfl⟩

theorem steady_withoutComments (frame : Frame) :
    Steady (fun payload => withoutComments (frame.fill payload)) Frame.fill := by
  induction size : (frame.fill []).length using Nat.strong_induction_on generalizing frame with
  | _ size ih =>
      subst size
      obtain none | ⟨region, found⟩ | failed := Region.find?_fill .comment frame
      · refine .ok frame fun payload inert => withoutComments_of_cut? ?_
        exact Region.find?_eq_none_iff.1 (none payload inert.spares_comment)
      · obtain ⟨frame', spliced⟩ := exists_splice_fill region.closed
        have shorter := length_splice_region (found [] IsInert.nil.spares_comment)
        refine (ih _ ?_ frame' rfl).congr fun payload inert => ?_
        · rw [← spliced]
          exact shorter
        · rw [withoutComments_of_find? (found payload inert.spares_comment), ← spliced]
          rfl
      · refine .error .malformedComment fun payload inert => ?_
        obtain ⟨_, failed⟩ := failed payload inert.spares_comment
        exact withoutComments_of_error failed

theorem steady_normalize (frame : Frame) :
    Steady (fun payload => normalize (frame.fill payload)) Frame.fill := by
  obtain ⟨frame', code⟩ := exists_codeLines_fill frame
  refine (steady_withoutComments frame'.trim).congr fun payload inert => ?_
  rw [normalize_eq, code payload inert, Frame.trim_fill]

/-! ### The namespace -/

theorem exists_behindKeywords_fill (frame : Frame) :
    ∃ frames : List Frame, ∀ payload, IsInert payload →
      behindKeywords false (frame.fill payload) = frames.map (Frame.fill payload) := by
  cases frame with
  | closed text =>
      refine ⟨(behindKeywords false text).map .closed, fun payload _ => ?_⟩
      rw [List.map_map]
      exact (List.map_id _).symm
  | around before after =>
      have other : Text.isWord '"' = false := by cbv
      have same : ∀ payload, (behindKeywords false after).map (Frame.fill payload ∘ .closed) =
          behindKeywords false after := fun _ => List.map_id _
      refine ⟨(behindKeywords false before).map (.around · after) ++
        (behindKeywords false after).map .closed, fun payload inert => ?_⟩
      rw [Frame.fill, behindKeywords_append other (by decide), behindKeywords_append other (by decide),
        inert.noKeyword, List.map_nil, List.nil_append, List.map_append, List.map_map, List.map_map,
        same]
      rfl

/-- No name of a namespace runs over a quotation mark. -/
theorem exists_namespaceName?_fill (frame : Frame) :
    ∃ found : Option (List Char × Frame), ∀ payload,
      namespaceName? (frame.fill payload) =
        found.map fun (name, rest) => (name, rest.fill payload) := by
  cases frame with
  | closed text =>
      refine ⟨(namespaceName? text).map (Prod.map id .closed), fun payload => ?_⟩
      rw [Option.map_map]
      exact Option.map_id'.symm
  | around before after =>
      have ink : Text.isBlank '"' = false := rfl
      let start := Text.trimLeft before
      have starts : ∀ payload, Text.trimLeft ((Frame.around before after).fill payload) =
          start ++ '"' :: (payload ++ '"' :: after) := fun _ => Text.trimLeft_append_ink ink _ _
      have head : ∀ payload, (start ++ '"' :: (payload ++ '"' :: after)).head?.any isNameStart =
          start.head?.any isNameStart := by
        intro payload
        cases start <;> rfl
      have size : ∀ payload, (start ++ '"' :: (payload ++ '"' :: after)).length <
          ((Frame.around before after).fill payload).length ↔ start.length < before.length := by
        intro payload
        simp only [Frame.fill, List.length_append]
        omega
      by_cases named : start.length < before.length ∧ start.head?.any isNameStart
      · refine ⟨some (start.takeWhile isNamePart, .around (start.dropWhile isNamePart) after),
          fun payload => ?_⟩
        have ends : ('"' :: (payload ++ '"' :: after)).head?.all fun next => !isNamePart next := rfl
        obtain ⟨take, drop⟩ := Lexeme.takeWhile_append_of_head ends start
        rw [namespaceName?, starts, take, drop, if_pos]
        · rfl
        · rw [Bool.and_eq_true, decide_eq_true_eq, size, head]
          exact named
      · refine ⟨none, fun payload => ?_⟩
        rw [namespaceName?, starts, if_neg]
        · rfl
        · rw [Bool.and_eq_true, decide_eq_true_eq, size, head]
          exact named

theorem steady_extractNamespace (frame : Frame) :
    Steady (fun payload => extractNamespace (frame.fill payload))
      fun payload (found : Option String × Frame) => (found.1, found.2.fill payload) := by
  obtain ⟨frames, keywords⟩ := exists_behindKeywords_fill frame
  match frames, keywords with
  | [], keywords =>
      refine .ok (none, frame) fun payload inert => ?_
      rw [extractNamespace, keywords payload inert]
      rfl
  | [behind], keywords =>
      obtain ⟨found, named⟩ := exists_namespaceName?_fill behind
      cases found with
      | none =>
          refine .error .missingNamespaceName fun payload inert => ?_
          rw [extractNamespace, keywords payload inert]
          simp only [List.map_cons, List.map_nil, named payload]
          exact ⟨_, rfl, rfl⟩
      | some parts =>
          obtain ⟨name, rest⟩ := parts
          obtain none | ⟨region, found⟩ | failed := Region.find?_fill (.bracket .curly) rest
          · refine .error .unexpectedEnd fun payload inert => ?_
            rw [extractNamespace, keywords payload inert]
            simp only [List.map_cons, List.map_nil, named payload, Option.map_some,
              none payload inert.spares_curly]
            exact ⟨_, rfl, rfl⟩
          · refine .ok (some (String.ofList name), region.inside) fun payload inert => ?_
            rw [extractNamespace, keywords payload inert]
            simp only [List.map_cons, List.map_nil, named payload, Option.map_some,
              found payload inert.spares_curly]
            rfl
          · refine .error .unbalancedDelimiter fun payload inert => ?_
            obtain ⟨_, failed⟩ := failed payload inert.spares_curly
            rw [extractNamespace, keywords payload inert]
            simp only [List.map_cons, List.map_nil, named payload, Option.map_some, failed]
            exact ⟨_, rfl, rfl⟩
  | first :: second :: more, keywords =>
      refine .error .multipleNamespaces fun payload inert => ?_
      rw [extractNamespace, keywords payload inert]
      exact ⟨_, rfl, rfl⟩

end PxdStub.Header
