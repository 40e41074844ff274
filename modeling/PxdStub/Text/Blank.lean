/-!
White space: the class of blank characters, trimming, and the words between blanks.
-/

namespace PxdStub.Text

/-- A character is blank when it has the Unicode property White_Space. -/
def isBlank (c : Char) : Bool :=
  let n := c.toNat
  (0x09 ≤ n && n ≤ 0x0D) || n == 0x20 || n == 0x85 || n == 0xA0 || n == 0x1680 ||
    (0x2000 ≤ n && n ≤ 0x200A) || n == 0x2028 || n == 0x2029 || n == 0x202F || n == 0x205F ||
    n == 0x3000

def trimLeft (text : List Char) : List Char :=
  text.dropWhile isBlank

def trimRight (text : List Char) : List Char :=
  (text.reverse.dropWhile isBlank).reverse

def trim (text : List Char) : List Char :=
  trimRight (trimLeft text)

/-- The longest runs of characters that are not blank, in order. -/
def words : List Char → List (List Char)
  | [] => []
  | c :: rest =>
      if isBlank c then words rest
      else if rest.head?.all isBlank then [c] :: words rest
      else match words rest with
        | word :: more => (c :: word) :: more
        | [] => [[c]]

theorem not_isBlank_of_mem_words {text word : List Char} {c : Char} (inside : word ∈ words text)
    (mem : c ∈ word) : isBlank c = false := by
  induction text generalizing word with
  | nil => cases inside
  | cons first rest ih =>
      rw [words] at inside
      split at inside
      · exact ih inside mem
      · next ink =>
          have here : isBlank first = false := by rwa [Bool.not_eq_true] at ink
          split at inside
          · rcases List.mem_cons.1 inside with rfl | inside
            · cases List.mem_singleton.1 mem
              exact here
            · exact ih inside mem
          · split at inside
            · next start more behind =>
                rw [behind] at ih
                rcases List.mem_cons.1 inside with rfl | inside
                · rcases List.mem_cons.1 mem with rfl | mem
                  · exact here
                  · exact ih (List.mem_cons_self ..) mem
                · exact ih (List.mem_cons_of_mem _ inside) mem
            · cases List.mem_singleton.1 inside
              cases List.mem_singleton.1 mem
              exact here

/-- Text without white space has nothing to trim. -/
theorem trim_of_not_isBlank {text : List Char} (ink : ∀ c ∈ text, isBlank c = false) :
    trim text = text := by
  have kept : ∀ text : List Char, (∀ c ∈ text, isBlank c = false) →
      text.dropWhile isBlank = text := by
    intro text ink
    cases text with
    | nil => rfl
    | cons c rest => exact List.dropWhile_cons_of_neg (by simp [ink c (List.mem_cons_self ..)])
  have left : trimLeft text = text := kept text ink
  rw [trim, left, trimRight, kept _ fun c inside => ink c (List.mem_reverse.1 inside),
    List.reverse_reverse]

end PxdStub.Text
