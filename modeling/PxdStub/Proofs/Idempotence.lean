import PxdStub.Proofs.NormalForm

/-!
The normal form of a header is one trimmed line in which no comment begins. Such a line is normal
already, unless it begins with a directive: a comment in front of a directive hides it the first
time, and the next time the whole line is dropped.
-/

namespace PxdStub

/-! ### Marks in a text -/

namespace Text

variable {mark : List Char} {c : Char}

theorem prefix_of_apart {front behind : List Char} (apart : c ∉ mark)
    (start : mark <+: front ++ c :: behind) : mark <+: front := by
  induction front generalizing mark with
  | nil =>
      cases mark with
      | nil => exact List.nil_prefix
      | cons d mark =>
          obtain ⟨rfl, _⟩ := List.cons_prefix_cons.1 start
          exact absurd List.mem_cons_self apart
  | cons d front ih =>
      cases mark with
      | nil => exact List.nil_prefix
      | cons e mark =>
          obtain ⟨rfl, later⟩ := List.cons_prefix_cons.1 start
          exact List.cons_prefix_cons.2 ⟨rfl, ih (List.not_mem_of_not_mem_cons apart) later⟩

/-- A mark does not run over a character that it does not have. -/
theorem infix_of_apart {front behind : List Char} (apart : c ∉ mark)
    (within : mark <:+: front ++ c :: behind) : mark <:+: front ∨ mark <:+: behind := by
  induction front with
  | nil =>
      obtain start | inner := List.infix_cons_iff.1 within
      · exact Or.inl (prefix_of_apart apart start).isInfix
      · exact Or.inr inner
  | cons d front ih =>
      obtain start | inner := List.infix_cons_iff.1 within
      · exact Or.inl (prefix_of_apart apart start).isInfix
      · exact (ih inner).imp_left fun inside => inside.trans (List.suffix_cons d front).isInfix

theorem not_mem_of_mem_lines {text line : List Char} (mem : line ∈ lines text) : '\n' ∉ line := by
  fun_induction lines text generalizing line with
  | case1 => cases mem
  | case2 rest ih =>
      obtain rfl | mem := List.mem_cons.1 mem
      · exact List.not_mem_nil
      · exact ih mem
  | case3 rest ih =>
      obtain rfl | mem := List.mem_cons.1 mem
      · exact List.not_mem_nil
      · exact ih mem
  | case4 d rest other _ first more found ih =>
      rw [found] at ih
      obtain rfl | mem := List.mem_cons.1 mem
      · exact List.not_mem_cons_of_ne_of_not_mem (Ne.symm other) (ih List.mem_cons_self)
      · exact ih (List.mem_cons_of_mem _ mem)
  | case5 d rest other _ found ih =>
      rw [List.mem_singleton.1 mem]
      exact List.not_mem_cons_of_ne_of_not_mem (Ne.symm other) List.not_mem_nil

end Text

/-! ### Flat text -/

namespace Header

theorem eq_of_codeLine? {line code : List Char} (found : codeLine? line = some code) :
    code = withoutLineComment (Text.trim line) := by
  cases plain : isDirective (Text.trim line) with
  | true => cases (codeLine?_of_isDirective plain).symm.trans found
  | false =>
      rw [codeLine?_of_plain plain] at found
      split at found
      · cases found
      · exact (Option.some.inj found).symm

/-- Text that stays as it is when lines are cleaned: one trimmed line without a line comment. -/
structure IsFlat (text : List Char) : Prop where
  trimmed : Text.IsTrimmed text
  oneLine : '\n' ∉ text
  uncommented : ¬ ['/', '/'] <:+: text

namespace IsFlat

theorem nil : IsFlat [] :=
  ⟨.nil, List.not_mem_nil, by simp⟩

theorem trim {text part : List Char} (flat : IsFlat text) (within : part <:+: text) :
    IsFlat (Text.trim part) := by
  have inner : Text.trim part <:+: text := (Text.isInfix_trim part).trans within
  exact ⟨Text.isTrimmed_trim part, fun mem => flat.oneLine (inner.subset mem),
    fun mark => flat.uncommented (mark.trans inner)⟩

/-- The blank between two pieces keeps a comment from beginning there. -/
theorem splice {before after : List Char} (flat : IsFlat before) (flat' : IsFlat after) :
    IsFlat (splice before after) := by
  by_cases none : before = []
  · rwa [none, splice_nil]
  · by_cases none' : after = []
    · rwa [splice_of_some none, none', padded, if_pos rfl, List.append_nil]
    · refine ⟨isTrimmed_splice flat.trimmed flat'.trimmed, ?oneLine, ?uncommented⟩
      all_goals rw [splice_of_some none, padded_of_some none']
      case oneLine => simp [flat.oneLine, flat'.oneLine]
      case uncommented =>
        intro mark
        exact (Text.infix_of_apart (by decide) mark).elim flat.uncommented flat'.uncommented

theorem of_codeLine? {line code : List Char} (within : '\n' ∉ line)
    (found : codeLine? line = some code) : IsFlat code ∧ code ≠ [] := by
  obtain ⟨trimmed, some⟩ := isTrimmed_of_codeLine? found
  obtain rfl := eq_of_codeLine? found
  refine ⟨⟨trimmed, fun mem => within ?_, ?_⟩, some⟩
  · have inner := (withoutLineComment_isPrefix (Text.isTrimmed_trim line)).subset mem
    exact (Text.isInfix_trim line).subset inner
  · obtain ⟨margin, comment, isCode, _⟩ := exists_isCode (Text.trim line)
    exact fun mark => isCode.noLine (mark.trans (List.prefix_append _ _).isInfix)

/-- The code on the lines of a text, before block comments are cut out. -/
theorem exists_codeLines (text : List Char) :
    ∃ code, IsFlat code ∧ (codeLines text).flatMap (' ' :: ·) = padded code := by
  have flat : ∀ line ∈ codeLines text, IsFlat line ∧ line ≠ [] := by
    intro code mem
    obtain ⟨line, mem, found⟩ := List.mem_filterMap.1 mem
    exact of_codeLine? (Text.not_mem_of_mem_lines mem) found
  generalize codeLines text = lines at flat ⊢
  induction lines with
  | nil => exact ⟨[], .nil, rfl⟩
  | cons line lines ih =>
      obtain ⟨⟨here, some⟩, more⟩ := List.forall_mem_cons.1 flat
      obtain ⟨code, there, same⟩ := ih more
      refine ⟨Header.splice line code, here.splice there, ?_⟩
      rw [padded_splice, List.flatMap_cons, same, padded_of_some some]

theorem withoutComments {text code : List Char} (flat : IsFlat text)
    (found : withoutComments text = .ok code) :
    IsFlat code ∧ Text.cut? Delimiter.comment.opening code = none := by
  fun_induction Header.withoutComments text with
  | case1 text region here ih =>
      obtain ⟨before, behind, inside, after, opened, closed, rfl⟩ := Region.find?_eq_some_iff.1 here
      have whole := Text.eq_of_cut? opened
      have tail := Delimiter.eq_of_close? closed
      have front : before <+: text := ⟨_, by rw [whole, List.append_assoc]⟩
      have back : after <:+ text := (List.suffix_append _ after).trans ⟨_, by rw [whole, tail]⟩
      exact ih ((flat.trim front.isInfix).splice (flat.trim back.isInfix)) found
  | case2 text none =>
      cases found
      exact ⟨flat, Region.find?_eq_none_iff.1 none⟩
  | case3 => cases found

/-- A flat text without block comments is its own normal form, or a directive. -/
theorem normalize_eq {code : List Char} (flat : IsFlat code)
    (plain : Text.cut? Delimiter.comment.opening code = none) :
    normalize code = .ok (if isDirective code then [] else code) := by
  have whole : withoutLineComment code = code := by
    rw [withoutLineComment, Text.cut?_of_not_infix flat.uncommented]
  rw [Header.normalize_eq, codeLines_of_not_mem flat.oneLine]
  cases directive : isDirective code with
  | true =>
      rw [codeLine?_of_isDirective (by rwa [flat.trimmed.trim_eq])]
      exact withoutComments_of_cut? rfl
  | false =>
      rw [flatMap_codeLine? (by rwa [flat.trimmed.trim_eq]), flat.trimmed.trim_eq, whole,
        trim_padded flat.trimmed]
      exact withoutComments_of_cut? plain

end IsFlat

theorem isFlat_of_normalize {text code : List Char} (normal : normalize text = .ok code) :
    IsFlat code ∧ Text.cut? Delimiter.comment.opening code = none := by
  obtain ⟨joined, flat, lines⟩ := IsFlat.exists_codeLines text
  rw [normalize_eq, lines, trim_padded flat.trimmed] at normal
  exact flat.withoutComments normal

/-! ### Normalizing again -/

/-- The normal form is normal, but for a directive that comes to its front. -/
theorem normalize_normalize {text code : List Char} (normal : normalize text = .ok code) :
    normalize code = .ok (if isDirective code then [] else code) := by
  obtain ⟨flat, plain⟩ := isFlat_of_normalize normal
  exact flat.normalize_eq plain

theorem normalize_normalize_over_lines :
    normalize "#pragma once\nint x; // a\n/* b\n#c */ d\n*/ int y;".toList =
        .ok "int x; int y;".toList ∧
      normalize "int x; int y;".toList = .ok "int x; int y;".toList := by
  have comment : Region.find? .comment "int x; /* b */ int y;".toList =
      .ok (some ⟨"int x;".toList, "b".toList, "int y;".toList⟩) := by cbv
  have lines : Text.trim ((codeLines
      "#pragma once\nint x; // a\n/* b\n#c */ d\n*/ int y;".toList).flatMap (' ' :: ·)) =
        "int x; /* b */ int y;".toList := by cbv
  have normal : normalize "#pragma once\nint x; // a\n/* b\n#c */ d\n*/ int y;".toList =
      .ok "int x; int y;".toList := by
    rw [normalize_eq, lines, withoutComments_of_find? comment]
    exact withoutComments_of_cut? (by cbv)
  exact ⟨normal, normalize_normalize normal⟩

/-- A directive behind a comment stays in the normal form and is dropped from there. -/
theorem normalize_hidden_directive : ∃ code, normalize "/* a */ #if X".toList = .ok code ∧
    normalize code ≠ .ok code := by
  have comment : Region.find? .comment "/* a */ #if X".toList =
      .ok (some ⟨[], "a".toList, "#if X".toList⟩) := by cbv
  have lines : Text.trim ((codeLines "/* a */ #if X".toList).flatMap (' ' :: ·)) =
      "/* a */ #if X".toList := by cbv
  have none : Text.trim ((codeLines "#if X".toList).flatMap (' ' :: ·)) = [] := by cbv
  refine ⟨"#if X".toList, ?_, ?_⟩
  · rw [normalize_eq, lines, withoutComments_of_find? comment]
    exact withoutComments_of_cut? (by cbv)
  · rw [normalize_eq, none, withoutComments_of_cut? rfl]
    simp

end Header

/-! ### The text that the declarations stand in -/

theorem Region.infix_inside {delimiter : Delimiter} {text : List Char} {region : Region}
    (found : find? delimiter text = .ok (some region)) : region.inside <:+: text := by
  obtain ⟨before, behind, inside, after, opened, closed, rfl⟩ := find?_eq_some_iff.1 found
  refine (Text.isInfix_trim inside).trans ⟨before ++ delimiter.opening, delimiter.closing ++ after, ?_⟩
  rw [Text.eq_of_cut? opened, Delimiter.eq_of_close? closed]
  simp only [List.append_assoc]

namespace Header

theorem suffix_of_mem_behindKeywords {inWord : Bool} {text behind : List Char}
    (mem : behind ∈ behindKeywords inWord text) : behind <:+ text := by
  fun_induction behindKeywords inWord text with
  | case1 => cases mem
  | case2 _ c rest _ found _ _ ih => exact (ih mem).trans (List.suffix_cons c rest)
  | case3 _ c rest _ behind' found _ ih =>
      obtain rfl | later := List.mem_cons.1 mem
      · rw [Text.after?_eq_some_iff.1 found]
        exact List.suffix_append _ _
      · exact (ih later).trans (List.suffix_cons c rest)
  | case4 _ c rest _ _ ih => exact (ih mem).trans (List.suffix_cons c rest)

theorem suffix_of_namespaceName? {behind name rest : List Char}
    (named : namespaceName? behind = some (name, rest)) : rest <:+ behind := by
  rw [namespaceName?] at named
  split at named
  · cases named
    exact (List.dropWhile_suffix _).trans (List.dropWhile_suffix _)
  · cases named

theorem infix_of_extractNamespace {code body : List Char} {name? : Option String}
    (found : extractNamespace code = .ok (name?, body)) : body <:+: code := by
  obtain ⟨_, rfl, _⟩ | ⟨behind, _, _, region, single, named, here, _, rfl⟩ :=
    extractNamespace_cases found
  · exact List.infix_refl body
  · have inner : behind <:+ code :=
      suffix_of_mem_behindKeywords (single ▸ List.mem_singleton_self behind)
    exact (Region.infix_inside here).trans ((suffix_of_namespaceName? named).trans inner).isInfix

end Header

end PxdStub
