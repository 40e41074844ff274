import PxdStub.Text.Wrap

/-!
Greedy wrapping. The lines of a wrap hold the words that are wrapped, each of them once and in
order. A line with more than one word keeps to the width, and the first word of the next line would
have been too much for it.
-/

namespace PxdStub.Text

/-! ### Groups of words as lines -/

/-- A group of words on a line behind an indent. -/
def lineOf (indent : String) (group : List String) : String :=
  indent ++ " ".intercalate group

/-- A line for each group of words, the first of which has an indent of its own. -/
def linesOf (first indent : String) : List (List String) → List String
  | [] => []
  | group :: later => lineOf first group :: later.map (lineOf indent)

theorem lineOf_singleton (indent word : String) : lineOf indent [word] = indent ++ word := by
  rw [lineOf, String.intercalate_singleton]

/-- One more word on a line stands behind a space. -/
theorem lineOf_concat (indent : String) {group : List String} (some : group ≠ []) (word : String) :
    lineOf indent (group ++ [word]) = lineOf indent group ++ " " ++ word := by
  rw [lineOf, lineOf, String.intercalate_append_of_ne_nil some (List.cons_ne_nil _ _),
    String.intercalate_singleton, String.append_assoc, String.append_assoc, String.append_assoc]

theorem linesOf_cons (first indent : String) (group : List String) (later : List (List String)) :
    linesOf first indent (group :: later) = lineOf first group :: linesOf indent indent later := by
  cases later <;> rfl

/-- Whole groups with spaces between them are their words with spaces between them. -/
theorem intercalate_groups {groups : List (List String)} (filled : ∀ group ∈ groups, group ≠ []) :
    " ".intercalate (groups.map fun group => " ".intercalate group) =
      " ".intercalate groups.flatten := by
  induction groups with
  | nil => rfl
  | cons group later ih =>
      obtain ⟨here, there⟩ := List.forall_mem_cons.1 filled
      cases later with
      | nil => simp
      | cons next later =>
          have more : (next :: later).flatten ≠ [] := by
            obtain ⟨word, rest, rfl⟩ := List.exists_cons_of_ne_nil (there next List.mem_cons_self)
            exact List.cons_ne_nil _ _
          rw [List.map_cons, String.intercalate_cons_of_ne_nil (by simp), ih there,
            List.flatten_cons (l := group), String.intercalate_append_of_ne_nil here more]

/-! ### Greedy wraps -/

/-- Lines that hold groups of the words, one group each, and are filled as far as they can be. -/
structure IsWrap (width : Nat) (first indent : String) (words lines : List String)
    (groups : List (List String)) : Prop where
  filled : ∀ group ∈ groups, group ≠ []
  whole : groups.flatten = words
  shown : linesOf first indent groups = lines
  /-- A line with several words keeps to the width. -/
  fits : ∀ placed ∈ lines.zip groups, 1 < placed.2.length → placed.1.utf8ByteSize ≤ width
  /-- The first word of the group behind a line has no place on that line. -/
  full : ∀ placed ∈ lines.zip groups.tail, ∀ word ∈ placed.2.head?,
    width < placed.1.utf8ByteSize + 1 + word.utf8ByteSize

namespace IsWrap

variable {width : Nat} {first indent : String} {words lines : List String}
  {groups : List (List String)}

theorem nil : IsWrap width first indent [] [] [] :=
  ⟨nofun, rfl, rfl, nofun, nofun⟩

/-- One line is a wrap when it fits or holds one word alone. -/
theorem singleton {group : List String} (some : group ≠ [])
    (fits : 1 < group.length → (lineOf first group).utf8ByteSize ≤ width) :
    IsWrap width first indent group [lineOf first group] [group] := by
  refine ⟨List.forall_mem_singleton.2 some, List.flatten_singleton, rfl, ?_, nofun⟩
  intro placed mem
  cases List.mem_singleton.1 mem
  exact fits

/-- A line goes before a wrap whose first word it has no place for. -/
theorem cons {group : List String} {word : String} {rest : List String}
    (wrap : IsWrap width indent indent (word :: rest) lines groups) (some : group ≠ [])
    (fits : 1 < group.length → (lineOf first group).utf8ByteSize ≤ width)
    (full : width < (lineOf first group).utf8ByteSize + 1 + word.utf8ByteSize) :
    IsWrap width first indent (group ++ word :: rest) (lineOf first group :: lines)
      (group :: groups) := by
  refine ⟨List.forall_mem_cons.2 ⟨some, wrap.filled⟩, ?_, ?_, ?_, ?_⟩
  · rw [List.flatten_cons, wrap.whole]
  · rw [linesOf_cons, wrap.shown]
  · intro placed mem
    rw [List.zip_cons_cons, List.mem_cons] at mem
    rcases mem with rfl | mem
    · exact fits
    · exact wrap.fits placed mem
  · have whole := wrap.whole
    cases groups with
    | nil => nofun
    | cons next later =>
        obtain ⟨start, others, rfl⟩ :=
          List.exists_cons_of_ne_nil (wrap.filled next List.mem_cons_self)
        obtain ⟨rfl, -⟩ := List.cons.inj whole
        intro placed mem
        rw [List.tail_cons, List.zip_cons_cons, List.mem_cons] at mem
        rcases mem with rfl | mem
        · intro other head
          obtain rfl := Option.some.inj head
          exact full
        · exact wrap.full placed mem

end IsWrap

/-- The unfinished line holds a group that fits or is one word alone, and the words are wrapped
behind it. -/
theorem isWrap_wrapBehind {width : Nat} {first indent : String} {group : List String}
    (words : List String) (some : group ≠ [])
    (fits : 1 < group.length → (lineOf first group).utf8ByteSize ≤ width) :
    ∃ groups, IsWrap width first indent (group ++ words)
      (wrapBehind width indent (lineOf first group) words) groups := by
  induction words generalizing first group with
  | nil =>
      rw [List.append_nil]
      exact ⟨[group], .singleton some fits⟩
  | cons word rest ih =>
      rw [wrapBehind]
      split
      · next place =>
          have longer : (lineOf first (group ++ [word])).utf8ByteSize ≤ width := by
            rw [lineOf_concat first some, String.utf8ByteSize_append, String.utf8ByteSize_append]
            exact place
          obtain ⟨groups, wrap⟩ := ih (by simp) fun _ => longer
          rw [List.append_assoc, lineOf_concat first some] at wrap
          exact ⟨groups, wrap⟩
      · next none =>
          obtain ⟨groups, wrap⟩ :=
            @ih indent [word] (List.cons_ne_nil _ _) fun several => absurd several (by simp)
          rw [lineOf_singleton] at wrap
          exact ⟨group :: groups, wrap.cons some fits (by omega)⟩

theorem exists_isWrap (width : Nat) (first indent : String) (words : List String) :
    ∃ groups, IsWrap width first indent words (wrap width first indent words) groups := by
  cases words with
  | nil => exact ⟨[], .nil⟩
  | cons word rest =>
      have wrapped := @isWrap_wrapBehind width first indent [word] rest (List.cons_ne_nil _ _)
        fun several => absurd several (by simp)
      rwa [lineOf_singleton] at wrapped

/-- Wrapping loses no word and is greedy; no words give no lines. -/
theorem wrap_isGreedy (width : Nat) (first indent : String) (words : List String) :
    wrap width first indent [] = [] ∧
      ∃ groups, IsWrap width first indent words (wrap width first indent words) groups :=
  ⟨rfl, exists_isWrap width first indent words⟩

end PxdStub.Text
