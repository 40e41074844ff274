import PxdStub.Text.Find

/-!
Delimiters: four kinds of bracket and the block comment, and where an open region is closed.
-/

namespace PxdStub

inductive Bracket where
  | round
  | square
  | curly
  | angle
  deriving DecidableEq, Repr

namespace Bracket

def opening : Bracket → Char
  | round => '('
  | square => '['
  | curly => '{'
  | angle => '<'

def closing : Bracket → Char
  | round => ')'
  | square => ']'
  | curly => '}'
  | angle => '>'

end Bracket

inductive Delimiter where
  | bracket (kind : Bracket)
  | comment
  deriving DecidableEq, Repr

namespace Delimiter

def opening : Delimiter → List Char
  | bracket kind => [kind.opening]
  | comment => ['/', '*']

def closing : Delimiter → List Char
  | bracket kind => [kind.closing]
  | comment => ['*', '/']

theorem opening_ne_nil (delimiter : Delimiter) : delimiter.opening ≠ [] := by
  cases delimiter <;> simp [opening]

theorem closing_ne_nil (delimiter : Delimiter) : delimiter.closing ≠ [] := by
  cases delimiter <;> simp [closing]

/-- The text up to the marker that closes `depth + 1` open regions, and the text behind it.
Markers are read left to right and do not overlap. -/
def close? (delimiter : Delimiter) (depth : Nat) :
    List Char → Option (List Char × List Char)
  | [] => none
  | c :: rest =>
      match _opened : Text.after? delimiter.opening (c :: rest) with
      | some behind =>
          (close? delimiter (depth + 1) behind).map fun (inside, after) =>
            (delimiter.opening ++ inside, after)
      | none =>
          match _closed : Text.after? delimiter.closing (c :: rest) with
          | some behind =>
              match depth with
              | 0 => some ([], behind)
              | outer + 1 =>
                  (close? delimiter outer behind).map fun (inside, after) =>
                    (delimiter.closing ++ inside, after)
          | none => (close? delimiter depth rest).map fun (inside, after) => (c :: inside, after)
termination_by text => text.length
decreasing_by
  · have split := congrArg List.length (Text.after?_eq_some_iff.1 _opened)
    have some := List.length_pos_iff.2 delimiter.opening_ne_nil
    simp only [List.length_append] at split
    omega
  · have split := congrArg List.length (Text.after?_eq_some_iff.1 _closed)
    have some := List.length_pos_iff.2 delimiter.closing_ne_nil
    simp only [List.length_append] at split
    omega
  · simp

theorem eq_of_close? {delimiter : Delimiter} {depth : Nat} {text inside after : List Char}
    (closed : delimiter.close? depth text = some (inside, after)) :
    text = inside ++ delimiter.closing ++ after := by
  fun_induction close? delimiter depth text generalizing inside with
  | case1 => simp at closed
  | case2 depth c rest behind opened ih =>
      obtain ⟨⟨inner, rest'⟩, found, same⟩ := Option.map_eq_some_iff.1 closed
      cases same
      rw [Text.after?_eq_some_iff.1 opened, ih found]
      simp
  | case3 c rest opened behind shut =>
      cases closed
      simpa using Text.after?_eq_some_iff.1 shut
  | case4 c rest opened behind shut outer ih =>
      obtain ⟨⟨inner, rest'⟩, found, same⟩ := Option.map_eq_some_iff.1 closed
      cases same
      rw [Text.after?_eq_some_iff.1 shut, ih found]
      simp
  | case5 depth c rest opened shut ih =>
      obtain ⟨⟨inner, rest'⟩, found, same⟩ := Option.map_eq_some_iff.1 closed
      cases same
      rw [ih found]
      simp

end Delimiter

end PxdStub
