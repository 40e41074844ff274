import PxdStub.Proofs.Markers

/-!
The region that a delimiter cuts out of a text, told by the bytes of the text. Markers are read from
left to right, none of them overlaps the one before, and a byte where no marker starts is passed on
its own. The region lies between the first opening marker and the marker behind which nothing is
open for the first time. Markers are ASCII, so these cuts lie between characters.
-/

namespace PxdStub

/-! ### Bytes -/

namespace Text

/-- A text in UTF-8. -/
def bytes (text : List Char) : List UInt8 :=
  text.flatMap String.utf8EncodeChar

@[simp] theorem bytes_nil : bytes [] = [] := rfl

@[simp] theorem bytes_cons (c : Char) (rest : List Char) :
    bytes (c :: rest) = String.utf8EncodeChar c ++ bytes rest := rfl

@[simp] theorem bytes_append (front back : List Char) :
    bytes (front ++ back) = bytes front ++ bytes back :=
  List.flatMap_append

@[simp] theorem length_bytes (text : List Char) : (bytes text).length = size text := by
  induction text with
  | nil => rfl
  | cons c rest ih => simp [ih]

theorem bytes_injective {text text' : List Char} (same : bytes text = bytes text') :
    text = text' := by
  have encoded : text.utf8Encode = text'.utf8Encode := congrArg List.toByteArray same
  apply String.ofList_injective
  rw [← String.toByteArray_inj]
  simpa using encoded

theorem eq_nil_of_size {text : List Char} (none : size text = 0) : text = [] := by
  cases text with
  | nil => rfl
  | cons c rest =>
      have positive := c.utf8Size_pos
      simp only [size_cons] at none
      omega

def IsAscii (text : List Char) : Prop :=
  ∀ c ∈ text, c.toNat < 0x80

theorem utf8EncodeChar_ascii {c : Char} (low : c.toNat < 0x80) :
    String.utf8EncodeChar c = [UInt8.ofNat c.toNat] := by
  have bound : c.val.toNat ≤ 0x7F := Nat.le_of_lt_succ low
  rw [String.utf8EncodeChar, if_pos bound]
  rfl

/-- A byte below 128 is a character of its own. -/
theorem utf8EncodeChar_of_mem {c : Char} {byte : UInt8} (mem : byte ∈ String.utf8EncodeChar c)
    (low : byte.toNat < 0x80) : String.utf8EncodeChar c = [byte] ∧ c.toNat = byte.toNat := by
  by_cases ascii : c.toNat < 0x80
  · rw [utf8EncodeChar_ascii ascii, List.mem_singleton] at mem
    have small : c.toNat < 256 := by omega
    refine ⟨by rw [utf8EncodeChar_ascii ascii, mem], ?_⟩
    simp [mem, Nat.mod_eq_of_lt small]
  · exfalso
    have wide : ¬ c.val.toNat ≤ 0x7F := fun bound => ascii (Nat.lt_succ_of_le bound)
    simp only [String.utf8EncodeChar, wide, ↓reduceIte] at mem
    split at mem
    · simp only [List.mem_cons, List.not_mem_nil, or_false] at mem
      rcases mem with rfl | rfl <;> simp at low <;> omega
    · split at mem
      · simp only [List.mem_cons, List.not_mem_nil, or_false] at mem
        rcases mem with rfl | rfl | rfl <;> simp at low <;> omega
      · simp only [List.mem_cons, List.not_mem_nil, or_false] at mem
        rcases mem with rfl | rfl | rfl | rfl <;> simp at low <;> omega

variable {text mark : List Char}

theorem exists_of_bytes_prefix {back : List UInt8} (ascii : IsAscii mark)
    (whole : bytes text = bytes mark ++ back) :
    ∃ behind, text = mark ++ behind ∧ back = bytes behind := by
  induction mark generalizing text with
  | nil => exact ⟨text, rfl, whole.symm⟩
  | cons m mark ih =>
      obtain ⟨low, ascii⟩ := List.forall_mem_cons.1 ascii
      have small : m.toNat < 256 := by omega
      rw [bytes_cons, utf8EncodeChar_ascii low] at whole
      cases text with
      | nil => cases whole
      | cons c rest =>
          have mem : UInt8.ofNat m.toNat ∈ String.utf8EncodeChar c := by
            have some : String.utf8EncodeChar c ≠ [] := by
              intro none
              have positive := c.utf8Size_pos
              rw [← String.length_utf8EncodeChar, none] at positive
              exact absurd positive (Nat.lt_irrefl 0)
            obtain ⟨byte, more, encoded⟩ := List.exists_cons_of_ne_nil some
            rw [bytes_cons, encoded] at whole
            rw [encoded, ← (List.cons.inj whole).1]
            exact List.mem_cons_self
          have byte : (UInt8.ofNat m.toNat).toNat = m.toNat := by
            simp [Nat.mod_eq_of_lt small]
          obtain ⟨encoded, same⟩ := utf8EncodeChar_of_mem mem (by omega)
          have same : c = m := Char.toNat_inj.1 (by omega)
          rw [bytes_cons, encoded] at whole
          obtain ⟨behind, rfl, later⟩ := ih ascii (List.cons.inj whole).2
          exact ⟨behind, by rw [same]; rfl, later⟩

/-- Where an ASCII mark lies in the bytes of a text, it lies between characters. -/
theorem exists_of_bytes {front back : List UInt8} (ascii : IsAscii mark) (some : mark ≠ [])
    (whole : bytes text = front ++ (bytes mark ++ back)) :
    ∃ before behind, text = before ++ (mark ++ behind) ∧ front = bytes before ∧
      back = bytes behind := by
  induction text generalizing front with
  | nil =>
      obtain ⟨m, mark, rfl⟩ := List.exists_cons_of_ne_nil some
      have none := congrArg List.length whole
      have positive := m.utf8Size_pos
      simp at none
      omega
  | cons c rest ih =>
      rw [bytes_cons] at whole
      obtain ⟨more, rfl, later⟩ | ⟨more, encoded, later⟩ := List.append_eq_append_iff.1 whole
      · obtain ⟨before, behind, rfl, rfl, rfl⟩ := ih later
        exact ⟨c :: before, behind, rfl, rfl, rfl⟩
      · cases more with
        | nil =>
            -- The mark begins right behind the character.
            obtain ⟨behind, rfl, rfl⟩ := exists_of_bytes_prefix ascii later.symm
            refine ⟨[c], behind, rfl, ?_, rfl⟩
            simpa using encoded.symm
        | cons byte more =>
            -- A character with a byte of the mark is the first one of the mark.
            obtain ⟨m, mark', rfl⟩ := List.exists_cons_of_ne_nil some
            have low := ascii m List.mem_cons_self
            have small : m.toNat < 256 := by omega
            rw [bytes_cons, utf8EncodeChar_ascii low] at later
            have first : byte = UInt8.ofNat m.toNat := (List.cons.inj later).1.symm
            have low' : byte.toNat < 0x80 := by
              rw [first]
              simp [Nat.mod_eq_of_lt small, low]
            have mem : byte ∈ String.utf8EncodeChar c := by simp [encoded]
            have alone := (utf8EncodeChar_of_mem mem low').1
            have empty : front = [] := by
              have lengths := congrArg List.length (encoded.symm.trans alone)
              simp only [List.length_append, List.length_cons, List.length_nil] at lengths
              exact List.eq_nil_of_length_eq_zero (by omega)
            subst empty
            rw [List.nil_append, ← bytes_cons] at whole
            obtain ⟨behind, found, later⟩ := exists_of_bytes_prefix ascii whole
            exact ⟨[], behind, found, rfl, later⟩

theorem after?_bytes (ascii : IsAscii mark) (text : List Char) :
    after? (bytes mark) (bytes text) = (after? mark text).map bytes := by
  cases found : after? mark text with
  | some behind =>
      apply after?_eq_some_iff.2
      rw [after?_eq_some_iff.1 found, bytes_append]
  | none =>
      cases found' : after? (bytes mark) (bytes text) with
      | none => rfl
      | some back =>
          obtain ⟨behind, whole, _⟩ := exists_of_bytes_prefix ascii (after?_eq_some_iff.1 found')
          cases found.symm.trans (after?_eq_some_iff.2 whole)

/-- A cut at a mark is a cut in front of its first occurrence. -/
theorem cut?_eq_some_iff_isPrefix {before behind : List Char} (some : mark ≠ []) :
    cut? mark text = .some (before, behind) ↔ text = before ++ (mark ++ behind) ∧
      ∀ before' behind', text = before' ++ (mark ++ behind') → before <+: before' := by
  have forward : ∀ before behind, cut? mark text = .some (before, behind) →
      text = before ++ (mark ++ behind) ∧
        ∀ before' behind', text = before' ++ (mark ++ behind') → before <+: before' := by
    intro before behind found
    have whole : text = before ++ (mark ++ behind) := by
      rw [← List.append_assoc]
      exact eq_of_cut? found
    refine ⟨whole, ?_⟩
    intro before' behind' whole'
    by_contra shorter
    have here : before <+: text := ⟨_, whole.symm⟩
    have there : before' <+: text := ⟨_, whole'.symm⟩
    have length : before'.length < before.length := by
      by_contra longer
      exact shorter (List.prefix_of_prefix_length_le here there (by omega))
    apply not_infix_of_cut? found some
    have first : before' ++ mark <+: text := ⟨behind', by rw [whole', List.append_assoc]⟩
    have second : before ++ mark.dropLast <+: text := by
      rw [whole, List.prefix_append_right_inj]
      exact (List.dropLast_prefix mark).trans (List.prefix_append mark behind)
    have positive := List.length_pos_iff.2 some
    have within := List.prefix_of_prefix_length_le first second (by simp; omega)
    exact (List.suffix_append before' mark).isInfix.trans within.isInfix
  refine ⟨forward before behind, ?_⟩
  rintro ⟨whole, first⟩
  cases found : cut? mark text with
  | none =>
      refine absurd ⟨before, behind, ?_⟩ (not_infix_of_cut?_none found some)
      rw [whole, List.append_assoc]
  | some parts =>
      obtain ⟨before', behind'⟩ := parts
      obtain ⟨whole', first'⟩ := forward before' behind' found
      have lower := (first before' behind' whole').length_le
      have same : before' = before := (first' before behind whole).eq_of_length_le lower
      subst same
      rw [whole] at whole'
      rw [List.append_cancel_left (List.append_cancel_left whole')]

end Text

/-! ### Markers in bytes -/

namespace Delimiter

/-- A marker, and the number of the byte where it starts. -/
structure Mark where
  opens : Bool
  start : Nat
  deriving DecidableEq, Repr

/-- What a marker adds to the number of open regions. -/
def Mark.change (mark : Mark) : Int :=
  if mark.opens then 1 else -1

/-- The markers of bytes from left to right. Behind a marker the reading goes on, and where none
starts it goes on behind one byte. -/
def marks (delimiter : Delimiter) (start : Nat) : List UInt8 → List Mark
  | [] => []
  | byte :: rest =>
      match _opened : Text.after? (Text.bytes delimiter.opening) (byte :: rest) with
      | some behind => ⟨true, start⟩ :: marks delimiter (start + Text.size delimiter.opening) behind
      | none =>
          match _closed : Text.after? (Text.bytes delimiter.closing) (byte :: rest) with
          | some behind =>
              ⟨false, start⟩ :: marks delimiter (start + Text.size delimiter.closing) behind
          | none => marks delimiter (start + 1) rest
termination_by bytes => bytes.length
decreasing_by
  · have split := congrArg List.length (Text.after?_eq_some_iff.1 _opened)
    have some := mt Text.eq_nil_of_size delimiter.opening_ne_nil
    simp only [List.length_append, Text.length_bytes] at split
    omega
  · have split := congrArg List.length (Text.after?_eq_some_iff.1 _closed)
    have some := mt Text.eq_nil_of_size delimiter.closing_ne_nil
    simp only [List.length_append, Text.length_bytes] at split
    omega
  · simp

/-- How many regions are open behind some markers, when `depth` are open in front of them. -/
def depthBehind (depth : Int) (read : List Mark) : Int :=
  depth + (read.map Mark.change).sum

/-- Nothing is open behind the last of the markers, and not before. -/
structure ShutBy (depth : Int) (marks : List Mark) (last : Mark) : Prop where
  last : marks.getLast? = some last
  first : ∀ read, read <+: marks → (depthBehind depth read = 0 ↔ read = marks)

/-- The bytes of a text, cut around the first opening marker and around the closing marker behind
which nothing is open for the first time. -/
structure Cuts (delimiter : Delimiter) (text before inside after : List UInt8) : Prop where
  whole : text = before ++ (Text.bytes delimiter.opening ++
    (inside ++ (Text.bytes delimiter.closing ++ after)))
  first : ∀ before' behind', text = before' ++ (Text.bytes delimiter.opening ++ behind') →
    before <+: before'
  shut : ShutBy 1 (delimiter.marks 0 (inside ++ Text.bytes delimiter.closing))
    ⟨false, inside.length⟩

theorem isAscii (delimiter : Delimiter) :
    Text.IsAscii delimiter.opening ∧ Text.IsAscii delimiter.closing := by
  cases delimiter with
  | comment => constructor <;> simp [Text.IsAscii, opening, closing]
  | bracket kind => cases kind <;> constructor <;>
      simp [Text.IsAscii, opening, closing, Bracket.opening, Bracket.closing]

theorem length_opening (delimiter : Delimiter) :
    delimiter.opening.length = delimiter.closing.length := by
  cases delimiter <;> rfl

/-- No opening marker is read where a closing one stands. -/
theorem after?_opening_closing (delimiter : Delimiter) (behind : List Char) :
    Text.after? delimiter.opening (delimiter.closing ++ behind) = none := by
  cases delimiter with
  | comment => rfl
  | bracket kind => cases kind <;> rfl

variable {delimiter : Delimiter} {text behind : List Char} {start : Nat}

theorem marks_opening : delimiter.marks start (Text.bytes (delimiter.opening ++ behind)) =
    ⟨true, start⟩ ::
      delimiter.marks (start + Text.size delimiter.opening) (Text.bytes behind) := by
  have opened : Text.after? (Text.bytes delimiter.opening)
      (Text.bytes (delimiter.opening ++ behind)) = some (Text.bytes behind) := by
    apply Text.after?_eq_some_iff.2
    exact Text.bytes_append _ _
  generalize Text.bytes (delimiter.opening ++ behind) = bytes at opened
  cases bytes with
  | nil =>
      have split := congrArg List.length (Text.after?_eq_some_iff.1 opened)
      have some := mt Text.eq_nil_of_size delimiter.opening_ne_nil
      simp only [List.length_append, Text.length_bytes, List.length_nil] at split
      omega
  | cons byte rest =>
      rw [marks]
      split
      · next found =>
          cases opened.symm.trans found
          rfl
      · next none => cases opened.symm.trans none

theorem marks_closing : delimiter.marks start (Text.bytes (delimiter.closing ++ behind)) =
    ⟨false, start⟩ ::
      delimiter.marks (start + Text.size delimiter.closing) (Text.bytes behind) := by
  have opened := Text.after?_bytes delimiter.isAscii.1 (delimiter.closing ++ behind)
  rw [after?_opening_closing] at opened
  have closed : Text.after? (Text.bytes delimiter.closing)
      (Text.bytes (delimiter.closing ++ behind)) = some (Text.bytes behind) := by
    apply Text.after?_eq_some_iff.2
    exact Text.bytes_append _ _
  generalize Text.bytes (delimiter.closing ++ behind) = bytes at opened closed
  cases bytes with
  | nil =>
      have split := congrArg List.length (Text.after?_eq_some_iff.1 closed)
      have some := mt Text.eq_nil_of_size delimiter.closing_ne_nil
      simp only [List.length_append, Text.length_bytes, List.length_nil] at split
      omega
  | cons byte rest =>
      rw [marks]
      split
      · next found => cases opened.symm.trans found
      · split
        · next found =>
            cases closed.symm.trans found
            rfl
        · next none => cases closed.symm.trans none

/-- Bytes where no marker starts are passed. -/
theorem marks_append {part more : List UInt8}
    (plain : ∀ front back, part = front ++ back → back ≠ [] →
      Text.after? (Text.bytes delimiter.opening) (back ++ more) = none ∧
        Text.after? (Text.bytes delimiter.closing) (back ++ more) = none) :
    delimiter.marks start (part ++ more) = delimiter.marks (start + part.length) more := by
  induction part generalizing start with
  | nil => rfl
  | cons byte part ih =>
      obtain ⟨opened, closed⟩ := plain [] (byte :: part) rfl (List.cons_ne_nil _ _)
      have later := @ih (start + 1) fun front back whole some =>
        plain (byte :: front) back (by rw [whole]; rfl) some
      rw [List.cons_append] at opened closed ⊢
      rw [marks]
      split
      · next found => cases opened.symm.trans found
      · split
        · next found => cases closed.symm.trans found
        · rw [later, List.length_cons, Nat.add_assoc, Nat.add_comm 1]

theorem marks_of_other {c : Char} {rest : List Char}
    (opens : Text.after? delimiter.opening (c :: rest) = none)
    (closes : Text.after? delimiter.closing (c :: rest) = none) :
    delimiter.marks start (Text.bytes (c :: rest)) =
      delimiter.marks (start + c.utf8Size) (Text.bytes rest) := by
  -- A marker that starts inside the bytes of the character starts at the character.
  have apart : ∀ mark : List Char, Text.IsAscii mark → mark ≠ [] →
      Text.after? mark (c :: rest) = none → ∀ front back : List UInt8,
      String.utf8EncodeChar c = front ++ back → back ≠ [] →
      Text.after? (Text.bytes mark) (back ++ Text.bytes rest) = none := by
    intro mark ascii some none front back encoded left
    cases found : Text.after? (Text.bytes mark) (back ++ Text.bytes rest) with
    | none => rfl
    | some more =>
        have whole : Text.bytes (c :: rest) = front ++ (Text.bytes mark ++ more) := by
          rw [Text.bytes_cons, encoded, List.append_assoc, Text.after?_eq_some_iff.1 found]
        obtain ⟨before, behind, same, front', _⟩ := Text.exists_of_bytes ascii some whole
        cases before with
        | nil => cases none.symm.trans (Text.after?_eq_some_iff.2 same)
        | cons d before =>
            obtain ⟨rfl, _⟩ := List.cons.inj same
            have lengths := congrArg List.length encoded
            have positive := List.length_pos_iff.2 left
            simp only [front', List.length_append, Text.length_bytes, Text.size_cons,
              String.length_utf8EncodeChar] at lengths
            omega
  rw [Text.bytes_cons, ← String.length_utf8EncodeChar]
  apply marks_append
  intro front back encoded left
  exact ⟨apart _ delimiter.isAscii.1 delimiter.opening_ne_nil opens front back encoded left,
    apart _ delimiter.isAscii.2 delimiter.closing_ne_nil closes front back encoded left⟩

theorem start_le_of_mem_marks {bytes : List UInt8} {mark : Mark}
    (mem : mark ∈ delimiter.marks start bytes) : start ≤ mark.start := by
  fun_induction marks delimiter start bytes with
  | case1 => cases mem
  | case2 start byte rest behind opened ih =>
      rcases List.mem_cons.1 mem with rfl | mem
      · exact Nat.le_refl _
      · have := ih mem
        omega
  | case3 start byte rest opened behind closed ih =>
      rcases List.mem_cons.1 mem with rfl | mem
      · exact Nat.le_refl _
      · have := ih mem
        omega
  | case4 start byte rest opened closed ih =>
      have := ih mem
      omega

/-! ### Markers and the depth -/

section

variable {depth : Int} {mark last : Mark} {more : List Mark}

@[simp] theorem depthBehind_nil (depth : Int) : depthBehind depth [] = depth := by
  simp [depthBehind]

@[simp] theorem depthBehind_cons (depth : Int) (mark : Mark) (read : List Mark) :
    depthBehind depth (mark :: read) = depthBehind (depth + mark.change) read := by
  simp [depthBehind, Int.add_assoc]

theorem shutBy_cons (opened : depth ≠ 0) (left : depth + mark.change ≠ 0) :
    ShutBy depth (mark :: more) last ↔ ShutBy (depth + mark.change) more last := by
  constructor
  · intro shut
    have some : more ≠ [] := by
      rintro rfl
      have zero := (shut.first [mark] List.prefix_rfl).2 rfl
      exact left (by simpa using zero)
    refine ⟨by rw [← shut.last, List.getLast?_cons_of_ne_nil some], ?_⟩
    intro read within
    have here := shut.first (mark :: read) ((List.prefix_cons_inj mark).2 within)
    simpa using here
  · intro shut
    have some : more ≠ [] := by
      rintro rfl
      cases shut.last
    refine ⟨by rw [← shut.last, List.getLast?_cons_of_ne_nil some], ?_⟩
    intro read within
    cases read with
    | nil => simp [opened]
    | cons mark' read =>
        obtain ⟨rfl, inner⟩ := List.cons_prefix_cons.1 within
        simpa using shut.first read inner

theorem shutBy_cons_zero (opened : depth ≠ 0) (zero : depth + mark.change = 0) :
    ShutBy depth (mark :: more) last ↔ more = [] ∧ mark = last := by
  constructor
  · intro shut
    have all := (shut.first [mark] ⟨more, rfl⟩).1 (by simpa using zero)
    obtain rfl : more = [] := (List.cons.inj all).2.symm
    exact ⟨rfl, by simpa using shut.last⟩
  · rintro ⟨rfl, rfl⟩
    refine ⟨rfl, ?_⟩
    intro read within
    cases read with
    | nil => simp [opened]
    | cons mark' read =>
        obtain ⟨rfl, inner⟩ := List.cons_prefix_cons.1 within
        simp [List.prefix_nil.1 inner, zero]

theorem ShutBy.last_mem (shut : ShutBy depth more last) : last ∈ more :=
  List.mem_of_getLast? shut.last

end

/-! ### The marker that closes a region -/

variable {depth : Nat} {inside after : List Char}

theorem after?_eq_none_of_longer {mark part more : List Char}
    (missing : Text.after? mark (part ++ more) = none) : Text.after? mark part = none := by
  cases found : Text.after? mark part with
  | none => rfl
  | some rest =>
      have longer : part ++ more = mark ++ (rest ++ more) := by
        rw [Text.after?_eq_some_iff.1 found, List.append_assoc]
      cases missing.symm.trans (Text.after?_eq_some_iff.2 longer)

/-- The region that is found is shut by its closing marker. -/
theorem shutBy_of_close? (closed : delimiter.close? depth text = some (inside, after))
    (start : Nat) : ShutBy (depth + 1) (delimiter.marks start
      (Text.bytes (inside ++ delimiter.closing))) ⟨false, start + Text.size inside⟩ := by
  fun_induction close? delimiter depth text generalizing inside start with
  | case1 => cases closed
  | case2 depth c rest behind opened ih =>
      obtain ⟨⟨inner, _⟩, later, same⟩ := Option.map_eq_some_iff.1 closed
      cases same
      have shut := ih later (start + Text.size delimiter.opening)
      rw [List.append_assoc, marks_opening]
      apply (shutBy_cons (by omega) (by simp [Mark.change]; omega)).2
      simpa [Mark.change, Nat.add_assoc] using shut
  | case3 c rest opened behind shut =>
      cases closed
      have single := @marks_closing delimiter [] start
      rw [List.append_nil, Text.bytes_nil, marks] at single
      rw [List.nil_append, single]
      apply (shutBy_cons_zero (by decide) (by simp [Mark.change])).2
      simp
  | case4 c rest opened behind shut outer ih =>
      obtain ⟨⟨inner, _⟩, later, same⟩ := Option.map_eq_some_iff.1 closed
      cases same
      have shut := ih later (start + Text.size delimiter.closing)
      rw [List.append_assoc, marks_closing]
      apply (shutBy_cons (by omega) (by simp [Mark.change]; omega)).2
      simpa [Mark.change, Nat.add_assoc] using shut
  | case5 depth c rest opens closes ih =>
      obtain ⟨⟨inner, _⟩, later, same⟩ := Option.map_eq_some_iff.1 closed
      cases same
      have whole : c :: rest = (c :: (inner ++ delimiter.closing)) ++ after := by
        rw [eq_of_close? later]
        rfl
      rw [whole] at opens closes
      have shut := ih later (start + c.utf8Size)
      rw [List.cons_append, marks_of_other (after?_eq_none_of_longer opens)
        (after?_eq_none_of_longer closes)]
      simpa [Nat.add_assoc] using shut

/-- A region that is no shorter than the marker in front of it begins with the whole marker. -/
theorem exists_inner {marker : List Char} (whole : marker ++ behind = inside ++ after)
    (enough : Text.size marker ≤ Text.size inside) :
    ∃ inner, inside = marker ++ inner ∧ behind = inner ++ after := by
  obtain ⟨inner, same, later⟩ | ⟨more, same, later⟩ := List.append_eq_append_iff.1 whole
  · exact ⟨inner, same, later⟩
  · have none : more = [] := by
      apply Text.eq_nil_of_size
      have sizes := congrArg Text.size same
      rw [Text.size_append] at sizes
      omega
    subst none
    exact ⟨[], by simpa using same.symm, by simpa using later.symm⟩

/-- A part that ends in a closing marker begins with the whole marker at the start of the text. -/
theorem exists_tail {marker : List Char} (short : marker.length = delimiter.closing.length)
    (whole : marker ++ behind = inside ++ (delimiter.closing ++ after)) :
    ∃ tail, inside ++ delimiter.closing = marker ++ tail := by
  have within : marker <+: inside ++ delimiter.closing ++ after :=
    ⟨behind, by rw [whole, List.append_assoc]⟩
  have here := List.prefix_of_prefix_length_le within (List.prefix_append _ _) (by simp [short])
  obtain ⟨tail, same⟩ := here
  exact ⟨tail, same.symm⟩

/-- A region that is shut by its closing marker is the one that is found. -/
theorem close?_of_shutBy (whole : text = inside ++ (delimiter.closing ++ after))
    (shut : ShutBy (depth + 1) (delimiter.marks start
      (Text.bytes (inside ++ delimiter.closing))) ⟨false, start + Text.size inside⟩) :
    delimiter.close? depth text = some (inside, after) := by
  fun_induction close? delimiter depth text generalizing inside start with
  | case1 =>
      obtain ⟨_, none⟩ := List.append_eq_nil_iff.1 whole.symm
      exact absurd (List.append_eq_nil_iff.1 none).1 delimiter.closing_ne_nil
  | case2 depth c rest behind opened ih =>
      rw [Text.after?_eq_some_iff.1 opened] at whole
      obtain ⟨tail, first⟩ := exists_tail delimiter.length_opening whole
      rw [first, marks_opening] at shut
      have later := (shutBy_cons (by omega) (by simp [Mark.change]; omega)).1 shut
      have enough := start_le_of_mem_marks later.last_mem
      obtain ⟨inner, rfl, rest'⟩ := exists_inner whole (by simpa using enough)
      obtain rfl : inner ++ delimiter.closing = tail := by
        rw [List.append_assoc] at first
        exact List.append_cancel_left first
      rw [@ih (start + Text.size delimiter.opening) _ rest'
        (by simpa [Mark.change, Nat.add_assoc] using later)]
      rfl
  | case3 c rest opened behind closed =>
      rw [Text.after?_eq_some_iff.1 closed] at whole
      obtain ⟨tail, first⟩ := exists_tail rfl whole
      rw [first, marks_closing] at shut
      obtain ⟨_, same⟩ := (shutBy_cons_zero (by decide) (by simp [Mark.change])).1 shut
      have none : inside = [] := by
        apply Text.eq_nil_of_size
        have starts := congrArg Mark.start same
        dsimp only at starts
        omega
      subst none
      rw [List.append_cancel_left whole]
  | case4 c rest opened behind closed outer ih =>
      rw [Text.after?_eq_some_iff.1 closed] at whole
      obtain ⟨tail, first⟩ := exists_tail rfl whole
      rw [first, marks_closing] at shut
      have later := (shutBy_cons (by omega) (by simp [Mark.change]; omega)).1 shut
      have enough := start_le_of_mem_marks later.last_mem
      obtain ⟨inner, rfl, rest'⟩ := exists_inner whole (by simpa using enough)
      obtain rfl : inner ++ delimiter.closing = tail := by
        rw [List.append_assoc] at first
        exact List.append_cancel_left first
      rw [@ih (start + Text.size delimiter.closing) _ rest'
        (by simpa [Mark.change, Nat.add_assoc] using later)]
      rfl
  | case5 depth c rest opened closed ih =>
      cases inside with
      | nil =>
          rw [List.nil_append] at whole
          cases closed.symm.trans (Text.after?_eq_some_iff.2 whole)
      | cons d inner =>
          obtain ⟨rfl, rest'⟩ := List.cons.inj whole
          rw [whole, ← List.append_assoc, List.cons_append] at opened closed
          rw [List.cons_append, marks_of_other (after?_eq_none_of_longer opened)
            (after?_eq_none_of_longer closed)] at shut
          rw [@ih (start + c.utf8Size) _ rest' (by simpa [Nat.add_assoc] using shut)]
          rfl

/-! ### The first balanced region -/

/-- The parts around the markers that are found are cut out of the bytes of the text. -/
theorem cuts_of_close? {before : List Char}
    (opened : Text.cut? delimiter.opening text = some (before, behind))
    (closed : delimiter.close? 0 behind = some (inside, after)) :
    delimiter.Cuts (Text.bytes text) (Text.bytes before) (Text.bytes inside)
      (Text.bytes after) := by
  obtain ⟨whole, first⟩ := (Text.cut?_eq_some_iff_isPrefix delimiter.opening_ne_nil).1 opened
  refine ⟨?_, ?_, ?_⟩
  · rw [whole, eq_of_close? closed]
    simp
  · intro before' behind' found
    obtain ⟨front, back, whole', rfl, _⟩ :=
      Text.exists_of_bytes delimiter.isAscii.1 delimiter.opening_ne_nil found
    obtain ⟨more, rfl⟩ := first front back whole'
    rw [Text.bytes_append]
    exact List.prefix_append _ _
  · have shut := shutBy_of_close? closed 0
    simpa using shut

/-- Every cut of the bytes lies between characters, around the markers that are found. -/
theorem exists_of_cuts {front part back : List UInt8}
    (cuts : delimiter.Cuts (Text.bytes text) front part back) :
    ∃ before behind inside after, Text.cut? delimiter.opening text = some (before, behind) ∧
      delimiter.close? 0 behind = some (inside, after) ∧ front = Text.bytes before ∧
      part = Text.bytes inside ∧ back = Text.bytes after := by
  obtain ⟨before, behind, whole, rfl, opened⟩ :=
    Text.exists_of_bytes delimiter.isAscii.1 delimiter.opening_ne_nil cuts.whole
  obtain ⟨inside, after, closed, rfl, rfl⟩ :=
    Text.exists_of_bytes delimiter.isAscii.2 delimiter.closing_ne_nil opened.symm
  have cut : Text.cut? delimiter.opening text = some (before, behind) := by
    apply (Text.cut?_eq_some_iff_isPrefix delimiter.opening_ne_nil).2
    refine ⟨whole, ?_⟩
    intro before' behind' whole'
    have shorter := cuts.first (Text.bytes before') (Text.bytes behind') (by simp [whole'])
    obtain same | ⟨more, same⟩ := List.prefix_or_prefix_of_prefix
      (⟨_, whole.symm⟩ : before <+: text) (⟨_, whole'.symm⟩ : before' <+: text)
    · exact same
    · have none : more = [] := by
        apply Text.eq_nil_of_size
        have sizes := shorter.length_le
        simp only [← same, Text.length_bytes, Text.size_append] at sizes
        omega
      rw [← same, none, List.append_nil]
  refine ⟨before, behind, inside, after, cut, ?_, rfl, rfl, rfl⟩
  have shut := cuts.shut
  apply @close?_of_shutBy _ _ 0 0 _ _ closed
  simpa using shut

end Delimiter

/-- What is found is the first balanced region. There is none if nothing opens one; else the text is
cut around it in the only way there is, between characters; and a text without such a cut is
unbalanced from its first opening marker on. -/
theorem Region.find_balanced (delimiter : Delimiter) (text : List Char) :
    (find? delimiter text = .ok none ↔ ¬ delimiter.opening <:+: text) ∧
    (∀ region, find? delimiter text = .ok (some region) ↔ ∃ before inside after,
      text = before ++ (delimiter.opening ++ (inside ++ (delimiter.closing ++ after))) ∧
      delimiter.Cuts (Text.bytes text) (Text.bytes before) (Text.bytes inside)
        (Text.bytes after) ∧
      region = ⟨Text.trim before, Text.trim inside, Text.trim after⟩) ∧
    (∀ front part back, delimiter.Cuts (Text.bytes text) front part back →
      (∀ front' part' back', delimiter.Cuts (Text.bytes text) front' part' back' →
        front' = front ∧ part' = part ∧ back' = back) ∧
      ∃ before inside after,
        text = before ++ (delimiter.opening ++ (inside ++ (delimiter.closing ++ after))) ∧
        front = Text.bytes before ∧ part = Text.bytes inside ∧ back = Text.bytes after) ∧
    (delimiter.opening <:+: text →
      (∀ front part back, ¬ delimiter.Cuts (Text.bytes text) front part back) →
      ∃ before behind, text = before ++ (delimiter.opening ++ behind) ∧
        (∀ before' behind', text = before' ++ (delimiter.opening ++ behind') →
          before <+: before') ∧
        find? delimiter text =
          .error (.unbalanced delimiter (Text.excerpt (delimiter.opening ++ behind)))) := by
  have texts : ∀ before behind inside after : List Char,
      Text.cut? delimiter.opening text = some (before, behind) →
      delimiter.close? 0 behind = some (inside, after) →
      text = before ++ (delimiter.opening ++ (inside ++ (delimiter.closing ++ after))) := by
    intro before behind inside after opened closed
    rw [Text.eq_of_cut? opened, Delimiter.eq_of_close? closed]
    simp
  refine ⟨?_, ?_, ?_, ?_⟩
  · rw [find?_eq_none_iff]
    exact ⟨fun none => Text.not_infix_of_cut?_none none delimiter.opening_ne_nil,
      Text.cut?_of_not_infix⟩
  · intro region
    rw [find?_eq_some_iff]
    constructor
    · rintro ⟨before, behind, inside, after, opened, closed, rfl⟩
      exact ⟨before, inside, after, texts _ _ _ _ opened closed,
        Delimiter.cuts_of_close? opened closed, rfl⟩
    · rintro ⟨before, inside, after, -, cuts, rfl⟩
      obtain ⟨before', behind, inside', after', opened, closed, front, part, back⟩ :=
        Delimiter.exists_of_cuts cuts
      rw [Text.bytes_injective front, Text.bytes_injective part, Text.bytes_injective back]
      exact ⟨before', behind, inside', after', opened, closed, rfl⟩
  · intro front part back cuts
    obtain ⟨before, behind, inside, after, opened, closed, rfl, rfl, rfl⟩ :=
      Delimiter.exists_of_cuts cuts
    refine ⟨?_, before, inside, after, texts _ _ _ _ opened closed, rfl, rfl, rfl⟩
    intro front' part' back' cuts'
    obtain ⟨before', behind', inside', after', opened', closed', rfl, rfl, rfl⟩ :=
      Delimiter.exists_of_cuts cuts'
    cases opened.symm.trans opened'
    cases closed.symm.trans closed'
    exact ⟨rfl, rfl, rfl⟩
  · intro opens uncut
    cases opened : Text.cut? delimiter.opening text with
    | none => exact absurd opens (Text.not_infix_of_cut?_none opened delimiter.opening_ne_nil)
    | some parts =>
        obtain ⟨before, behind⟩ := parts
        obtain ⟨whole, first⟩ := (Text.cut?_eq_some_iff_isPrefix delimiter.opening_ne_nil).1 opened
        refine ⟨before, behind, whole, first, ?_⟩
        rw [find?, opened]
        cases closed : delimiter.close? 0 behind with
        | none => simp [closed]
        | some parts => exact absurd (Delimiter.cuts_of_close? opened closed) (uncut _ _ _)

/-- An opening marker lends no character to a closing one. -/
example : Region.find? .comment "x/*/\u00e9*/ y*/".toList =
    .ok (some ⟨"x".toList, "/\u00e9".toList, "y*/".toList⟩) := by cbv

end PxdStub
