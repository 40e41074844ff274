import PxdStub.Proofs.AtomicGeneration
import PxdStub.Proofs.BalancedRegions
import PxdStub.Proofs.ImportLines
import PxdStub.Proofs.TreeShapes

/-!
Includes are merged as a set. The modules of a stub are those of header and source, each of them once
and in the order of their bytes, and what is written on include lines has no other say in a stub.
-/

namespace PxdStub

/-! ### The order of bytes -/

namespace Text

theorem cons_ofNat_lt {low high : Nat} {back back' : List UInt8} (bound : high < 256)
    (less : low < high ∨ low = high ∧ back < back') :
    UInt8.ofNat low :: back < UInt8.ofNat high :: back' := by
  rw [List.cons_lt_cons_iff, UInt8.lt_iff_toNat_lt]
  rcases less with less | ⟨rfl, behind⟩
  · left
    simp only [UInt8.toNat_ofNat']
    omega
  · exact .inr ⟨rfl, behind⟩

/-- The bytes behind the first hold the digits of a code point to base 64. -/
theorem continuation_lt {low high : Nat} {back back' : List UInt8}
    (less : low % 64 < high % 64 ∨ low % 64 = high % 64 ∧ back < back') :
    UInt8.ofNat (low % 64 + 128) :: back < UInt8.ofNat (high % 64 + 128) :: back' := by
  refine cons_ofNat_lt (by omega) ?_
  rcases less with less | ⟨same, behind⟩
  · exact .inl (by omega)
  · exact .inr ⟨by omega, behind⟩

/-- Of two characters the one with the lower code point has the lower bytes, whatever comes behind
them. -/
theorem utf8EncodeChar_lt {a b : Char} (less : a.toNat < b.toNat) (back back' : List UInt8) :
    String.utf8EncodeChar a ++ back < String.utf8EncodeChar b ++ back' := by
  have valid : b.val.toNat < 0x110000 := by
    rcases b.valid with low | high
    · omega
    · exact high.2
  change a.val.toNat < b.val.toNat at less
  generalize code : a.val.toNat = low at less
  generalize code' : b.val.toNat = high at less valid
  simp only [String.utf8EncodeChar, code, code']
  -- Encodings of different lengths differ in their first bytes, others from some digit on.
  split_ifs <;> simp only [List.cons_append, List.nil_append] <;> refine cons_ofNat_lt (by omega) ?_
  all_goals try omega
  · rcases Nat.lt_or_ge (low / 64) (high / 64) with first | first
    · exact .inl (by omega)
    · exact .inr ⟨by omega, continuation_lt (.inl (by omega))⟩
  · rcases Nat.lt_or_ge (low / 4096) (high / 4096) with first | first
    · exact .inl (by omega)
    · refine .inr ⟨by omega, continuation_lt ?_⟩
      rcases Nat.lt_or_ge (low / 64) (high / 64) with second | second
      · exact .inl (by omega)
      · exact .inr ⟨by omega, continuation_lt (.inl (by omega))⟩
  · rcases Nat.lt_or_ge (low / 262144) (high / 262144) with first | first
    · exact .inl (by omega)
    · refine .inr ⟨by omega, continuation_lt ?_⟩
      rcases Nat.lt_or_ge (low / 4096) (high / 4096) with second | second
      · exact .inl (by omega)
      · refine .inr ⟨by omega, continuation_lt ?_⟩
        rcases Nat.lt_or_ge (low / 64) (high / 64) with third | third
        · exact .inl (by omega)
        · exact .inr ⟨by omega, continuation_lt (.inl (by omega))⟩

theorem bytes_lt {left right : List Char} (ordered : le left right) (apart : left ≠ right) :
    bytes left < bytes right := by
  induction left generalizing right with
  | nil =>
      obtain ⟨b, right, rfl⟩ := List.exists_cons_of_ne_nil (Ne.symm apart)
      obtain ⟨byte, more, encoded⟩ := List.exists_cons_of_ne_nil (@String.utf8EncodeChar_ne_nil b)
      rw [bytes_nil, bytes_cons, encoded]
      exact List.nil_lt_cons _ _
  | cons a left ih =>
      cases right with
      | nil => cases ordered
      | cons b right =>
          rw [bytes_cons, bytes_cons]
          by_cases same : a = b
          · subst same
            refine List.append_left_lt (ih ?_ fun equal => apart (by rw [equal]))
            simpa [le] using ordered
          · have below : a.toNat ≤ b.toNat := by simpa [le, same] using ordered
            have other : a.toNat ≠ b.toNat := fun equal => same (Char.toNat_inj.1 equal)
            exact utf8EncodeChar_lt (by omega) _ _

end Text

/-! ### Sorted names -/

theorem IsAscending.bytes {names : List String} (ascending : IsAscending names) :
    names.Pairwise fun left right => Text.bytes left.toList < Text.bytes right.toList :=
  ascending.imp fun ordered =>
    Text.bytes_lt ordered.1 fun same => ordered.2 (String.toList_inj.1 same)

namespace Include

/-- Two texts are the same but for what stands on their include lines. -/
def AlikeBeside (text text' : List Char) : Prop :=
  List.Forall₂ (fun line line' => line = line' ∨ IsIncludeLine line ∧ IsIncludeLine line')
    (Text.lines text) (Text.lines text')

variable {text text' : List Char}

theorem AlikeBeside.codeLines (alike : AlikeBeside text text') :
    Header.codeLines text = Header.codeLines text' := by
  unfold AlikeBeside at alike
  rw [Header.codeLines, Header.codeLines]
  generalize Text.lines text = lines, Text.lines text' = lines' at alike
  induction alike with
  | nil => rfl
  | cons same _ ih =>
      rw [List.filterMap_cons, List.filterMap_cons, ih]
      rcases same with rfl | ⟨first, second⟩
      · rfl
      · rw [Header.codeLine?_of_isDirective first.isDirective,
          Header.codeLine?_of_isDirective second.isDirective]

/-- Include lines are not seen by the parser. -/
theorem AlikeBeside.ofText (alike : AlikeBeside text text') :
    Header.ofText text = Header.ofText text' := by
  rw [Header.ofText, Header.ofText, Header.prepare, Header.prepare, Header.normalize_eq,
    Header.normalize_eq, alike.codeLines]

end Include

namespace Job

variable {job : Job} {options : Options}

/-! ### Modules of texts -/

/-- The modules that the include lines of a text name, in the order of the lines. -/
def found (job : Job) (text : String) : Except ParseError (List String) :=
  Include.find text.toList (job.header.fileName?.getD []) job.folder

def Includes (job : Job) (text name : String) : Prop :=
  ∃ names, job.found text = .ok names ∧ name ∈ names

/-- The modules of a stub are those that its texts name, each of them once and in the order of
their bytes. They are imported in that order, line by line. -/
structure Merged (job : Job) (texts modules : List String) (stub : String) : Prop where
  wellFormed : ∀ text ∈ texts, ∃ names, job.found text = .ok names
  ascending : modules.Pairwise fun left right =>
    Text.bytes left.toList < Text.bytes right.toList
  mem_iff : ∀ name, name ∈ modules ↔ ∃ text ∈ texts, job.Includes text name
  block : ∃ before behind, stub = before ++ "\n" ++
    String.join (modules.map fun name => "cimport " ++ name ++ "\n") ++ behind
  /-- No other line reads as an import, unless a path brings a line end with it. -/
  lines : '\n' ∉ job.header.text → '\n' ∉ job.source.text → '\n' ∉ job.folder.text →
    '\r' ∉ job.folder.text →
      Text.importLines stub.toList = modules.map fun name => ("cimport " ++ name).toList

end Job

end PxdStub
