import Mathlib
import PxdStub.Proofs.IncludeLines

/-!
Includes and block comments. Includes are looked for before block comments are taken out, so comments
leave the includes of a text alone as long as no line that they touch reads as an include.
-/

namespace PxdStub

/-! ### Comments in a text -/

/-- A part of a text: code, or a block comment with what stands inside of it. Literals, line comments
and directives are code, whatever they hold. -/
inductive Piece where
  | code (text : List Char)
  | comment (inside : List Char)
  deriving DecidableEq, Repr

/-- A character of a text, and whether it belongs to a block comment. -/
structure Marked where
  char : Char
  inComment : Bool
  deriving DecidableEq, Repr

/-- A character without comments: those leave spaces and the breaks of their lines. -/
def Marked.shown (marked : Marked) : Char :=
  if marked.inComment && marked.char != '\n' && marked.char != '\r' then ' ' else marked.char

theorem Marked.shown_eq_feed_iff (marked : Marked) :
    marked.shown = '\n' ↔ marked.char = '\n' := by
  obtain ⟨char, inComment⟩ := marked
  cases inComment with
  | false => simp [shown]
  | true =>
      by_cases feed : char = '\n'
      · simp [shown, feed]
      · by_cases back : char = '\r'
        · simp [shown, back]
        · simp [shown, feed, back]

theorem Marked.shown_of_code {marked : Marked} (code : marked.inComment = false) :
    marked.shown = marked.char := by
  simp [shown, code]

namespace Piece

def marked : Piece → List Marked
  | code text => text.map fun char => ⟨char, false⟩
  | comment inside => ("/*".toList ++ inside ++ "*/".toList).map fun char => ⟨char, true⟩

def markedOf (pieces : List Piece) : List Marked :=
  pieces.flatMap marked

/-- The text of the pieces. -/
def textOf (pieces : List Piece) : List Char :=
  (markedOf pieces).map Marked.char

/-- The text with spaces in place of its comments. -/
def blankedOf (pieces : List Piece) : List Char :=
  (markedOf pieces).map Marked.shown

end Piece

/-! ### Lines that comments touch -/

namespace Include

variable {exclude : List Char} {folder : Path}

/-- What a line of a text adds to its modules. -/
def ofLine (exclude : List Char) (folder : Path) (line : List Char) :
    Except ParseError (Option String) :=
  match ofLine? line with
  | some included => resolve included exclude folder
  | none => .ok none

theorem find_of_not_mem {line : List Char} (within : '\n' ∉ line) :
    find line exclude folder = (ofLine exclude folder line).map Option.toList := by
  rw [find_eq, linesOf_of_not_mem within, ofLine]
  cases ofLine? line with
  | none => rfl
  | some included =>
      dsimp only [Option.toList_some]
      rw [resolveAll, resolveAll]
      cases resolve included exclude folder with
      | error error => rfl
      | ok module? => cases module? <;> rfl

theorem find_append_feed {line : List Char} (within : '\n' ∉ line) (rest : List Char) :
    find (line ++ '\n' :: rest) exclude folder = do
      let module? ← ofLine exclude folder line
      let modules ← find rest exclude folder
      return module?.toList ++ modules := by
  rw [find_eq, linesOf_append_feed within, ofLine, find_eq]
  cases ofLine? line with
  | none =>
      change resolveAll exclude folder (linesOf rest) = (resolveAll exclude folder (linesOf rest)).map _
      cases resolveAll exclude folder (linesOf rest) <;> rfl
  | some included => rfl

/-- A line of marked characters adds the same with its comments and without them, or nothing. -/
def IsClear (exclude : List Char) (folder : Path) (line : List Marked) : Prop :=
  (∃ marked ∈ line, marked.inComment) →
    ofLine exclude folder (line.map Marked.char) = .ok none ∧
      ofLine exclude folder (line.map Marked.shown) = .ok none

theorem IsClear.ofLine_eq {line : List Marked} (clear : IsClear exclude folder line) :
    ofLine exclude folder (line.map Marked.char) = ofLine exclude folder (line.map Marked.shown) := by
  by_cases touched : ∃ marked ∈ line, marked.inComment
  · rw [(clear touched).1, (clear touched).2]
  · have code : ∀ marked ∈ line, marked.shown = marked.char := by
      intro marked mem
      refine Marked.shown_of_code ?_
      by_contra inComment
      exact touched ⟨marked, mem, by simpa using inComment⟩
    rw [List.map_congr_left code]

/-- Marked text is a last line, or a line with its end and marked text behind it. -/
theorem exists_line (text : List Marked) : (∀ marked ∈ text, marked.char ≠ '\n') ∨
    ∃ line feed rest, text = line ++ feed :: rest ∧ feed.char = '\n' ∧
      ∀ marked ∈ line, marked.char ≠ '\n' := by
  induction text with
  | nil => exact Or.inl (by simp)
  | cons first text ih =>
      by_cases feed : first.char = '\n'
      · exact Or.inr ⟨[], first, text, rfl, feed, by simp⟩
      · obtain none | ⟨line, feed', rest, rfl, isFeed, within⟩ := ih
        · exact Or.inl (List.forall_mem_cons.2 ⟨feed, none⟩)
        · exact Or.inr ⟨first :: line, feed', rest, rfl, isFeed, List.forall_mem_cons.2 ⟨feed, within⟩⟩

theorem feed_not_mem {line : List Marked} (within : ∀ marked ∈ line, marked.char ≠ '\n') :
    '\n' ∉ line.map Marked.char ∧ '\n' ∉ line.map Marked.shown := by
  constructor
  · intro mem
    obtain ⟨marked, here, same⟩ := List.mem_map.1 mem
    exact within marked here same
  · intro mem
    obtain ⟨marked, here, same⟩ := List.mem_map.1 mem
    exact within marked here (marked.shown_eq_feed_iff.1 same)

/-- Comments in place of spaces change no modules and no errors, when no line that a comment touches
reads as an include of another stub or as a malformed one, with the comment or without. -/
theorem find_marked {text : List Marked}
    (clear : ∀ line ∈ text.splitOnP fun marked => marked.char = '\n', IsClear exclude folder line) :
    find (text.map Marked.char) exclude folder = find (text.map Marked.shown) exclude folder := by
  induction size : text.length using Nat.strong_induction_on generalizing text with
  | _ size ih =>
      obtain within | ⟨line, feed, rest, rfl, isFeed, within⟩ := exists_line text
      · have line := List.splitOnP_eq_singleton
          (p := fun marked : Marked => decide (marked.char = '\n')) (by simpa using within)
        have here := clear text (by rw [line]; exact List.mem_singleton_self text)
        rw [find_of_not_mem (feed_not_mem within).1, find_of_not_mem (feed_not_mem within).2,
          here.ofLine_eq]
      · have lines := List.splitOnP_append_cons_of_forall_mem
          (p := fun marked : Marked => decide (marked.char = '\n')) (by simpa using within) feed
          (by simpa using isFeed) rest
        rw [lines] at clear
        have here := clear line List.mem_cons_self
        have later := ih rest.length (by rw [← size]; simp; omega)
          (fun line mem => clear line (List.mem_cons_of_mem _ mem)) rfl
        have shown := feed.shown_eq_feed_iff.2 isFeed
        rw [List.map_append, List.map_append, List.map_cons, List.map_cons, isFeed, shown,
          find_append_feed (feed_not_mem within).1, find_append_feed (feed_not_mem within).2,
          here.ofLine_eq, later]

/-- Block comments change no modules and no errors, however a text is made of code and comments, when
no line that a comment touches reads as an include of another stub or as a malformed one. -/
theorem find_blankedOf (pieces : List Piece) (exclude : List Char) (folder : Path)
    (clear : ∀ line ∈ (Piece.markedOf pieces).splitOnP fun marked => marked.char = '\n',
      IsClear exclude folder line) :
    find (Piece.textOf pieces) exclude folder = find (Piece.blankedOf pieces) exclude folder :=
  find_marked clear

instance (exclude : List Char) (folder : Path) (line : List Marked) :
    Decidable (IsClear exclude folder line) :=
  inferInstanceAs (Decidable (_ → _))

theorem find_blankedOf_beside_include :
    let pieces : List Piece := [.code "#include \"a.hpp\"\nint x; ".toList,
      .comment " y\n z ".toList, .code " int w;\n".toList]
    (∀ line ∈ (Piece.markedOf pieces).splitOnP fun marked => marked.char = '\n',
      IsClear "b.hpp".toList (Path.ofString ".") line) ∧
    find (Piece.textOf pieces) "b.hpp".toList (Path.ofString ".") =
      find (Piece.blankedOf pieces) "b.hpp".toList (Path.ofString ".") := by
  intro pieces
  have clear : ∀ line ∈ (Piece.markedOf pieces).splitOnP fun marked => marked.char = '\n',
      IsClear "b.hpp".toList (Path.ofString ".") line := by
    decide
  exact ⟨clear, find_blankedOf pieces _ _ clear⟩

/-- An include inside of a comment counts, and one behind a comment on its line does not: comments are
taken out of declarations, but not of the lines in which includes are looked for. -/
theorem find_commented_out :
    find (Piece.textOf [.comment "\n#include \"a.hpp\"\n".toList]) "b.hpp".toList
        (Path.ofString ".") = .ok ["a"] ∧
      find (Piece.blankedOf [.comment "\n#include \"a.hpp\"\n".toList]) "b.hpp".toList
        (Path.ofString ".") = .ok [] ∧
      find (Piece.textOf [.comment " c ".toList, .code " #include \"a.hpp\"".toList])
        "b.hpp".toList (Path.ofString ".") = .ok [] ∧
      find (Piece.blankedOf [.comment " c ".toList, .code " #include \"a.hpp\"".toList])
        "b.hpp".toList (Path.ofString ".") = .ok ["a"] := by
  have inside : linesOf (Piece.textOf [.comment "\n#include \"a.hpp\"\n".toList]) =
      ["#include \"a.hpp\"".toList] := by rfl
  have blanked : linesOf (Piece.blankedOf [.comment "\n#include \"a.hpp\"\n".toList]) = [] := by
    rfl
  have behind : linesOf (Piece.textOf [.comment " c ".toList,
      .code " #include \"a.hpp\"".toList]) = [] := by rfl
  have bare : linesOf (Piece.blankedOf [.comment " c ".toList,
      .code " #include \"a.hpp\"".toList]) = ["#include \"a.hpp\"".toList] := by rfl
  simp only [find_eq, inside, blanked, behind, bare]
  exact ⟨by rfl, rfl, rfl, by rfl⟩

end Include

end PxdStub
