import PxdStub.FileTree

/-!
The names of a path, which are its parts without those that mean nothing, and what becomes of them
when paths are joined and when a path is followed upwards.
-/

namespace PxdStub

namespace Path

/-! ### Parts of texts -/

@[simp] theorem partsOf_nil : partsOf [] = [[]] := rfl

@[simp] theorem partsOf_slash (rest : List Char) :
    partsOf ('/' :: rest) = [] :: partsOf rest := rfl

theorem partsOf_ne_nil (text : List Char) : partsOf text ≠ [] := by
  cases text with
  | nil => simp
  | cons c rest =>
      simp only [partsOf]
      split
      · simp
      · split <;> simp

theorem partsOf_append (text rest : List Char) :
    partsOf (text ++ '/' :: rest) = partsOf text ++ partsOf rest := by
  induction text with
  | nil => rfl
  | cons c text ih =>
      by_cases slash : c = '/'
      · subst slash
        simp [ih]
      · simp only [List.cons_append, partsOf, slash, if_false, ih]
        cases parts : partsOf text with
        | nil => exact absurd parts (partsOf_ne_nil text)
        | cons part more => rfl

theorem partsOf_of_not_mem {text : List Char} (whole : '/' ∉ text) : partsOf text = [text] := by
  induction text with
  | nil => rfl
  | cons c rest ih =>
      rw [List.mem_cons, not_or] at whole
      simp only [partsOf, Ne.symm whole.1, if_false, ih whole.2]

theorem not_mem_of_mem_partsOf {text part : List Char} (inside : part ∈ partsOf text) :
    '/' ∉ part := by
  induction text generalizing part with
  | nil =>
      rw [partsOf_nil, List.mem_singleton] at inside
      subst inside
      simp
  | cons c rest ih =>
      by_cases slash : c = '/'
      · subst slash
        rw [partsOf_slash, List.mem_cons] at inside
        rcases inside with rfl | inside
        · simp
        · exact ih inside
      · cases parts : partsOf rest with
        | nil => exact absurd parts (partsOf_ne_nil rest)
        | cons first more =>
            simp only [partsOf, slash, if_false, parts, List.mem_cons] at inside
            rcases inside with rfl | inside
            · rw [List.mem_cons, not_or]
              exact ⟨Ne.symm slash, ih (by simp [parts])⟩
            · exact ih (by simp [parts, inside])

theorem not_mem_of_mem_parts {path : Path} {part : List Char} (inside : part ∈ path.parts) :
    '/' ∉ part :=
  not_mem_of_mem_partsOf inside

theorem textOf_cons (part : List Char) {parts : List (List Char)} (more : parts ≠ []) :
    textOf (part :: parts) = part ++ '/' :: textOf parts := by
  rw [textOf, List.intercalate_cons_of_ne_nil more]
  simp [textOf]

theorem textOf_append {parts more : List (List Char)} (first : parts ≠ []) (second : more ≠ []) :
    textOf (parts ++ more) = textOf parts ++ '/' :: textOf more := by
  induction parts with
  | nil => exact absurd rfl first
  | cons part parts ih =>
      by_cases last : parts = []
      · subst last
        rw [List.singleton_append, textOf_cons part second]
        simp [textOf]
      · rw [List.cons_append, textOf_cons part (by simp [last]), textOf_cons part last, ih last]
        simp

theorem partsOf_textOf {parts : List (List Char)} (some : parts ≠ [])
    (whole : ∀ part ∈ parts, '/' ∉ part) : partsOf (textOf parts) = parts := by
  induction parts with
  | nil => exact absurd rfl some
  | cons part parts ih =>
      have single : partsOf part = [part] := partsOf_of_not_mem (whole part (by simp))
      by_cases last : parts = []
      · subst last
        simpa [textOf] using single
      · rw [textOf_cons part last, partsOf_append, single,
          ih last fun part inside => whole part (by simp [inside])]
        rfl

theorem textOf_partsOf (text : List Char) : textOf (partsOf text) = text := by
  induction text with
  | nil => rfl
  | cons c rest ih =>
      by_cases slash : c = '/'
      · subst slash
        rw [partsOf_slash, textOf_cons [] (partsOf_ne_nil rest), ih]
        rfl
      · cases parts : partsOf rest with
        | nil => exact absurd parts (partsOf_ne_nil rest)
        | cons first more =>
            simp only [partsOf, slash, if_false, parts]
            rw [parts] at ih
            rw [← ih]
            by_cases last : more = []
            · subst last
              simp [textOf]
            · rw [textOf_cons _ last, textOf_cons _ last]
              rfl

theorem infix_of_mem_partsOf {text part : List Char} (inside : part ∈ partsOf text) :
    part <:+: text := by
  rw [← textOf_partsOf text]
  generalize partsOf text = parts at inside
  induction parts with
  | nil => cases inside
  | cons first more ih =>
      by_cases last : more = []
      · subst last
        cases List.mem_singleton.1 inside
        simp [textOf]
      · rw [textOf_cons first last]
        rcases List.mem_cons.1 inside with rfl | inside
        · exact (List.prefix_append _ _).isInfix
        · exact (ih inside).trans ((List.suffix_cons _ _).trans (List.suffix_append _ _)).isInfix

/-! ### Names -/

/-- The parts that are neither empty nor a dot. -/
def namesIn (parts : List (List Char)) : Address :=
  parts.filter fun part => !isIdle part

/-- The names that lead to what a path is the path of, when no part goes up. -/
def names (path : Path) : Address :=
  namesIn (partsOf path.text)

/-- No part of the path goes up, and only the first may be a dot. -/
def IsPlain (path : Path) : Prop :=
  ['.', '.'] ∉ partsOf path.text ∧ ['.'] ∉ (partsOf path.text).tail

theorem namesIn_append (parts more : List (List Char)) :
    namesIn (parts ++ more) = namesIn parts ++ namesIn more :=
  List.filter_append ..

@[simp] theorem namesIn_cons_of_isIdle {part : List Char} {parts : List (List Char)}
    (idle : isIdle part) : namesIn (part :: parts) = namesIn parts := by
  simp [namesIn, idle]

@[simp] theorem namesIn_cons_of_not_isIdle {part : List Char} {parts : List (List Char)}
    (name : ¬isIdle part) : namesIn (part :: parts) = part :: namesIn parts := by
  simp [namesIn, name]

theorem namesIn_of_idle {parts : List (List Char)} (idle : ∀ part ∈ parts, isIdle part) :
    namesIn parts = [] := by
  rw [namesIn, List.filter_eq_nil_iff]
  intro part inside
  simp [idle part inside]

@[simp] theorem isIdle_nil : isIdle [] = true := rfl

@[simp] theorem isIdle_dot : isIdle ['.'] = true := rfl

/-! ### Anchors -/

/-- Parts behind an anchor, with the part that the anchor itself makes. -/
def anchored : List Char → List (List Char) → List (List Char)
  | [], parts => parts
  | '/' :: _, parts => [] :: parts
  | _, parts => ['.'] :: parts.tail

/-- Parts that can stand behind an anchor. Behind a dot comes nothing or a slash. -/
def Anchors (anchor : List Char) (parts : List (List Char)) : Prop :=
  anchor = [] ∨ anchor = ['/'] ∨ anchor = ['.'] ∧ ∀ part ∈ parts.head?, part = []

theorem anchors_parts (path : Path) : Anchors path.anchor path.parts := by
  unfold parts anchor
  split
  · exact .inr (.inl rfl)
  · rename_i dot
    rw [dot]
    exact .inr (.inr ⟨rfl, by simp⟩)
  · rename_i dot
    rw [dot]
    exact .inr (.inr ⟨rfl, by simp⟩)
  · exact .inl rfl

theorem text_eq (path : Path) : path.text = path.anchor ++ textOf path.parts := by
  rw [parts, textOf_partsOf]
  unfold anchor
  split <;> simp_all

namespace Anchors

variable {anchor : List Char} {parts more : List (List Char)}

theorem of_append (anchors : Anchors anchor (parts ++ more)) : Anchors anchor parts := by
  rcases anchors with rfl | rfl | ⟨rfl, first⟩
  · exact .inl rfl
  · exact .inr (.inl rfl)
  · refine .inr (.inr ⟨rfl, ?_⟩)
    cases parts with
    | nil => simp
    | cons part parts => exact first

theorem partsOf_eq (anchors : Anchors anchor parts) (some : parts ≠ [])
    (whole : ∀ part ∈ parts, '/' ∉ part) :
    partsOf (anchor ++ textOf parts) = anchored anchor parts := by
  rcases anchors with rfl | rfl | ⟨rfl, first⟩
  · exact partsOf_textOf some whole
  · rw [List.singleton_append, partsOf_slash, partsOf_textOf some whole]
    rfl
  · cases parts with
    | nil => exact absurd rfl some
    | cons part more =>
        have empty : part = [] := first part rfl
        subst empty
        by_cases last : more = []
        · subst last
          rfl
        · rw [textOf_cons [] last]
          show partsOf (['.'] ++ '/' :: textOf more) = ['.'] :: more
          rw [partsOf_append, partsOf_textOf last fun part inside => whole part (by simp [inside])]
          rfl

theorem namesIn_eq (anchors : Anchors anchor parts) :
    namesIn (anchored anchor parts) = namesIn parts := by
  rcases anchors with rfl | rfl | ⟨rfl, first⟩
  · rfl
  · exact namesIn_cons_of_isIdle rfl
  · cases parts with
    | nil => exact namesIn_cons_of_isIdle rfl
    | cons part more =>
        have empty : part = [] := first part rfl
        subst empty
        exact (namesIn_cons_of_isIdle rfl).trans (namesIn_cons_of_isIdle rfl).symm

theorem mem_anchored (anchors : Anchors anchor parts) {part : List Char} (some : part ≠ [])
    (inside : part ∈ parts) : part ∈ anchored anchor parts := by
  rcases anchors with rfl | rfl | ⟨rfl, first⟩
  · exact inside
  · exact List.mem_cons_of_mem _ inside
  · cases parts with
    | nil => cases inside
    | cons head parts =>
        rcases List.mem_cons.1 inside with rfl | inside
        · exact absurd (first _ rfl) some
        · exact List.mem_cons_of_mem _ inside

/-- Another last part in place of a name. -/
theorem renamed {last : List Char} (anchors : Anchors anchor (parts ++ [last]))
    (named : ¬isIdle last) (name : List Char) : Anchors anchor (parts ++ [name]) := by
  rcases anchors with rfl | rfl | ⟨rfl, first⟩
  · exact .inl rfl
  · exact .inr (.inl rfl)
  · refine .inr (.inr ⟨rfl, ?_⟩)
    cases parts with
    | nil => exact absurd (by rw [first last rfl]; rfl) named
    | cons part parts => exact first

/-- A name is never the part that an anchor makes. -/
theorem anchored_append_name {name : List Char} (named : ¬isIdle name)
    (anchors : Anchors anchor (parts ++ name :: more)) :
    anchored anchor (parts ++ name :: more) = anchored anchor parts ++ name :: more := by
  rcases anchors with rfl | rfl | ⟨rfl, first⟩
  · rfl
  · rfl
  · cases parts with
    | nil => exact absurd (by simp [first name rfl]) named
    | cons part parts => rfl

end Anchors

theorem mem_of_mem_anchored {anchor : List Char} {parts : List (List Char)} {part : List Char}
    (inside : part ∈ anchored anchor parts) : isIdle part ∨ part ∈ parts := by
  unfold anchored at inside
  split at inside
  · exact .inr inside
  · rcases List.mem_cons.1 inside with rfl | inside
    · exact .inl rfl
    · exact .inr inside
  · rcases List.mem_cons.1 inside with rfl | inside
    · exact .inl rfl
    · exact .inr (List.mem_of_mem_tail inside)

theorem anchored_prefix (anchor : List Char) (parts more : List (List Char)) :
    anchored anchor parts <+: anchored anchor (parts ++ more) := by
  unfold anchored
  split
  · exact List.prefix_append _ _
  · exact (List.prefix_cons_inj _).2 (List.prefix_append _ _)
  · refine (List.prefix_cons_inj _).2 ?_
    cases parts with
    | nil => exact List.nil_prefix
    | cons part parts => exact List.prefix_append _ _

theorem partsOf_text (path : Path) : partsOf path.text = anchored path.anchor path.parts := by
  have found := path.anchors_parts.partsOf_eq (partsOf_ne_nil _) fun _ => not_mem_of_mem_partsOf
  rwa [← text_eq] at found

/-! ### Joining -/

/-- The parts of a relative path stand behind those of a folder, in place of the empty one behind a
last slash. -/
theorem partsOf_join_relative (folder : Path) {other : Path} (relative : other.isAbsolute = false) :
    ∃ before ends, partsOf (folder.join other).text = before ++ partsOf other.text ∧
      (∀ part ∈ ends, part = []) ∧ partsOf folder.text = before ++ ends := by
  simp only [join, relative, Bool.false_or, List.isEmpty_iff]
  by_cases empty : folder.text = []
  · rw [if_pos empty]
    exact ⟨[], [[]], rfl, by simp, by rw [empty]; rfl⟩
  · rw [if_neg empty]
    by_cases closed : folder.text.getLast? = some '/'
    · rw [if_pos closed]
      obtain ⟨before, text⟩ := List.getLast?_eq_some_iff.1 closed
      refine ⟨partsOf before, [[]], ?_, by simp, ?_⟩
      · show partsOf (folder.text ++ other.text) = _
        rw [text, List.append_assoc, List.singleton_append, partsOf_append]
      · rw [text, partsOf_append]
        rfl
    · rw [if_neg closed]
      exact ⟨partsOf folder.text, [], partsOf_append _ _, by simp, by simp⟩

theorem isAbsolute_of_not_mem {text : List Char} (whole : '/' ∉ text) :
    (⟨text⟩ : Path).isAbsolute = false := by
  cases text with
  | nil => rfl
  | cons c rest =>
      rw [List.mem_cons, not_or] at whole
      simp [isAbsolute, Ne.symm whole.1]

/-- A name behind a folder is one more part. -/
theorem partsOf_join (folder : Path) {name : List Char} (whole : '/' ∉ name) :
    ∃ before ends, partsOf (folder.join ⟨name⟩).text = before ++ [name] ∧
      (∀ part ∈ ends, part = []) ∧ partsOf folder.text = before ++ ends := by
  obtain ⟨before, ends, joined, others⟩ :=
    partsOf_join_relative folder (isAbsolute_of_not_mem whole)
  rw [partsOf_of_not_mem whole] at joined
  exact ⟨before, ends, joined, others⟩

theorem names_join {folder : Path} {name : List Char} (whole : '/' ∉ name)
    (named : ¬isIdle name) : (folder.join ⟨name⟩).names = folder.names ++ [name] := by
  obtain ⟨before, ends, joined, empty, alone⟩ := partsOf_join folder whole
  have none : namesIn ends = [] := namesIn_of_idle fun part inside => by
    rw [empty part inside]
    rfl
  rw [names, names, joined, alone, namesIn_append, namesIn_append, none, List.append_nil,
    namesIn_cons_of_not_isIdle named]
  rfl

theorem isPlain_of_join {folder : Path} {name : List Char} (whole : '/' ∉ name)
    (plain : (folder.join ⟨name⟩).IsPlain) : folder.IsPlain := by
  obtain ⟨before, ends, joined, empty, alone⟩ := partsOf_join folder whole
  obtain ⟨noUp, noDot⟩ := plain
  rw [joined] at noUp noDot
  constructor
  · intro up
    rw [alone, List.mem_append] at up
    rcases up with up | up
    · exact noUp (by simp [up])
    · cases empty _ up
  · intro dot
    rw [alone] at dot
    cases before with
    | nil =>
        have inside := List.mem_of_mem_tail dot
        cases empty _ inside
    | cons part before =>
        rw [List.cons_append, List.tail_cons, List.mem_append] at dot
        rcases dot with dot | dot
        · exact noDot (by simp [dot])
        · cases empty _ dot

end Path

end PxdStub
