import PxdStub.Text.Blank

/-!
Measures of text: its size in UTF-8 bytes, and the short form in which messages quote it.
-/

namespace PxdStub.Text

def size : List Char → Nat
  | [] => 0
  | c :: rest => c.utf8Size + size rest

@[simp] theorem size_nil : size [] = 0 := rfl

@[simp] theorem size_cons (c : Char) (rest : List Char) :
    size (c :: rest) = c.utf8Size + size rest := rfl

@[simp] theorem size_append (left right : List Char) :
    size (left ++ right) = size left + size right := by
  induction left with
  | nil => simp
  | cons c left ih =>
      rw [List.cons_append, size_cons, size_cons, ih]
      omega

/-- Messages quote at most this many characters of source text. -/
def excerptLength : Nat := 60

/-- The trimmed text, cut with three dots when it is long. -/
def excerpt (text : List Char) : String :=
  let quoted := trim text
  if quoted.length ≤ excerptLength then String.ofList quoted
  else String.ofList (quoted.take excerptLength) ++ "..."

end PxdStub.Text
