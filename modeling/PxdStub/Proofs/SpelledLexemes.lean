import PxdStub.Proofs.Spelling

/-!
Texts that spell lexemes. The lexer finds the lexemes that were spelled, as long as a blank stands
wherever two of them would run together.
-/

namespace PxdStub

namespace Lexeme

/-- The lexemes that spellings of declarations are made of. -/
def isSpelled : Lexeme → Bool
  | number text => text = "1"
  | identifier name => isName name
  | keyword _ | opening _ | closing _ => true
  | punctuation mark => mark != .ellipsis
  | _ => false

/-- Whether a lexeme ends where the character comes behind it. -/
def endsBefore (c : Char) : Lexeme → Bool
  | identifier _ | keyword _ => !isWordPart c
  | number _ => !isNumberPart c
  | punctuation .colon => c != ':'
  | _ => true

/-- Whether two lexemes stay apart without a blank. -/
def meets (left right : Lexeme) : Bool :=
  right.spelling.head?.all fun c => left.endsBefore c

theorem endsBefore_blank (lexeme : Lexeme) : lexeme.endsBefore ' ' := by
  cases lexeme with
  | punctuation mark => cases mark <;> rfl
  | _ => rfl

/-- Marks that stay apart from everything. -/
def isMark : Lexeme → Bool
  | opening _ | closing _ => true
  | punctuation mark => mark = .star || mark = .ampersand || mark = .comma || mark = .semicolon
  | _ => false

theorem apart_of_isMark {mark : Lexeme} {c : Char} (isMark : mark.isMark)
    (head : mark.spelling.head? = some c) :
    isWordPart c = false ∧ isNumberPart c = false ∧ c ≠ ':' := by
  cases mark with
  | opening bracket | closing bracket =>
      cases bracket <;> cases head <;> decide
  | punctuation mark =>
      cases mark <;> first | (cases head; decide) | cases isMark
  | _ => cases isMark

theorem meets_mark (left : Lexeme) {mark : Lexeme} (isMark : mark.isMark) : left.meets mark := by
  unfold meets
  cases head : mark.spelling.head? with
  | none => rfl
  | some c =>
      obtain ⟨word, number, colon⟩ := apart_of_isMark isMark head
      cases left with
      | identifier | keyword => simp [endsBefore, word]
      | number => simp [endsBefore, number]
      | punctuation left => cases left <;> simp [endsBefore, colon]
      | _ => rfl

theorem meets_of_endsBefore {left : Lexeme} (ends : ∀ c, left.endsBefore c) (right : Lexeme) :
    left.meets right := by
  unfold meets
  cases right.spelling.head? with
  | none => rfl
  | some c => exact ends c

theorem mark_meets {mark : Lexeme} (isMark : mark.isMark) (right : Lexeme) : mark.meets right := by
  refine meets_of_endsBefore (fun c => ?_) right
  cases mark with
  | punctuation mark => cases mark <;> first | rfl | cases isMark
  | _ => first | rfl | cases isMark

/-- Characters that neither belong to a gap nor may start one. -/
def isInk (c : Char) : Bool :=
  !Text.isBlank c && c != '#' && c != '/'

theorem toNat_of_isWordStart {c : Char} (starts : isWordStart c) :
    0x41 ≤ c.toNat ∧ c.toNat ≤ 0x5A ∨ 0x61 ≤ c.toNat ∧ c.toNat ≤ 0x7A ∨ c.toNat = 0x5F := by
  simp only [isWordStart, Char.isAlpha, Char.isUpper, Char.isLower, Bool.or_eq_true,
    Bool.and_eq_true, decide_eq_true_eq, beq_iff_eq] at starts
  obtain (upper | lower) | under := starts
  · exact Or.inl upper
  · exact Or.inr (Or.inl lower)
  · rw [under]
    exact Or.inr (Or.inr rfl)

theorem isInk_of_isWordStart {c : Char} (starts : isWordStart c) : isInk c := by
  have range := toNat_of_isWordStart starts
  have blank : Text.isBlank c = false := by
    simp only [Text.isBlank, Bool.or_eq_false_iff, Bool.and_eq_false_iff, beq_eq_false_iff_ne,
      decide_eq_false_iff_not]
    omega
  have hash : c ≠ '#' := by
    rintro rfl
    simp at range
  have slash : c ≠ '/' := by
    rintro rfl
    simp at range
  simp [isInk, blank, hash, slash]

theorem exists_ink {lexeme : Lexeme} (spelled : lexeme.isSpelled) :
    ∃ c rest, lexeme.spelling = c :: rest ∧ isInk c := by
  cases lexeme with
  | number text =>
      simp only [isSpelled, decide_eq_true_eq] at spelled
      rw [spelled]
      exact ⟨'1', [], rfl, rfl⟩
  | identifier name =>
      simp only [isSpelled, isName] at spelled
      cases parts : name.toList with
      | nil =>
          rw [parts] at spelled
          cases spelled
      | cons c rest =>
          rw [parts] at spelled
          simp only [Bool.and_eq_true] at spelled
          exact ⟨c, rest, parts, isInk_of_isWordStart spelled.1.1⟩
  | keyword word => cases word <;> exact ⟨_, _, rfl, rfl⟩
  | opening bracket | closing bracket => cases bracket <;> exact ⟨_, _, rfl, rfl⟩
  | punctuation mark => cases mark <;> exact ⟨_, _, rfl, rfl⟩
  | string | character | symbol => cases spelled

theorem read?_word {c : Char} {rest text : List Char} (starts : isWordStart c)
    (goesOn : rest.all isWordPart) (ends : text.head?.all fun next => !isWordPart next) :
    read? c (rest ++ text) = some (ofWord (String.ofList (c :: rest)), text) := by
  obtain ⟨take, drop⟩ := takeWhile_of_head goesOn ends
  have quote : c ≠ '"' := by
    rintro rfl
    cases starts
  have quote' : c ≠ '\'' := by
    rintro rfl
    cases starts
  have digit : ¬c.isDigit := by
    have range := toNat_of_isWordStart starts
    simp only [Char.isDigit, Bool.and_eq_true, decide_eq_true_eq, not_and]
    intro _ upper
    have upper : c.toNat ≤ 0x39 := upper
    omega
  unfold read?
  rw [if_neg quote, if_neg quote', if_neg digit, if_pos starts, take, drop]

theorem read?_spelling {lexeme : Lexeme} {c : Char} {rest text : List Char}
    (spelled : lexeme.isSpelled) (spelling : lexeme.spelling = c :: rest)
    (ends : text.head?.all fun next => lexeme.endsBefore next) :
    read? c (rest ++ text) = some (lexeme, text) := by
  cases lexeme with
  | number word =>
      simp only [isSpelled, decide_eq_true_eq] at spelled
      subst spelled
      obtain ⟨take, drop⟩ := @takeWhile_of_head isNumberPart [] text rfl ends
      have chars : ['1'] = c :: rest := spelling
      cases chars
      rw [List.nil_append] at take drop ⊢
      unfold read?
      rw [if_neg (by decide), if_neg (by decide), if_pos (by decide), take, drop]
  | identifier name =>
      have named := spelled
      have chars : name.toList = c :: rest := spelling
      simp only [isSpelled, isName, chars, Bool.and_eq_true] at named
      obtain ⟨⟨starts, goesOn⟩, unknown⟩ := named
      rw [read?_word starts goesOn ends, ← chars, String.ofList_toList, ofWord,
        Option.isNone_iff_eq_none.1 unknown]
  | keyword word =>
      have starts : isWordStart c ∧ rest.all isWordPart ∧
          ofWord (String.ofList (c :: rest)) = .keyword word := by
        cases word <;> cases spelling <;> decide
      rw [read?_word starts.1 starts.2.1 ends, starts.2.2]
  | opening bracket | closing bracket => cases bracket <;> cases spelling <;> rfl
  | punctuation mark =>
      cases mark with
      | colon =>
          have chars : [':'] = c :: rest := spelling
          cases chars
          cases text with
          | nil => rfl
          | cons next text =>
              have other : next ≠ ':' := by simpa [endsBefore] using ends
              unfold read?
              rw [if_neg (by decide), if_neg (by decide), if_neg (by decide), if_neg (by decide)]
              split
              · next after _ same =>
                  cases same
                  exact absurd rfl other
              · next after colon _ => cases colon
              · rfl
      | ellipsis => cases spelled
      | _ =>
          cases spelling
          rfl
  | string | character | symbol => cases spelled

end Lexeme

/-- Lexemes one behind the other, with blanks behind each. -/
inductive Spells : List Lexeme → List Char → Prop
  | nil : Spells [] []
  | cons {lexeme rest text} (blanks : Nat) : lexeme.isSpelled →
      (blanks = 0 → ∀ next ∈ rest.head?, lexeme.meets next) → Spells rest text →
      Spells (lexeme :: rest) (lexeme.spelling ++ List.replicate blanks ' ' ++ text)

namespace Spells

variable {lexemes lexemes' : List Lexeme} {text text' : List Char}

theorem head (spells : Spells lexemes text) :
    text = [] ∧ lexemes = [] ∨ ∃ c rest lexeme more, text = c :: rest ∧ Lexeme.isInk c ∧
      lexemes = lexeme :: more ∧ lexeme.spelling.head? = some c := by
  cases spells with
  | nil => exact Or.inl ⟨rfl, rfl⟩
  | @cons lexeme more text blanks spelled meets behind =>
      obtain ⟨c, rest, spelling, ink⟩ := Lexeme.exists_ink spelled
      refine Or.inr ⟨c, rest ++ List.replicate blanks ' ' ++ text, lexeme, more, ?_, ink, rfl, ?_⟩
      · rw [spelling]
        rfl
      · rw [spelling]
        rfl

theorem splitGap (spells : Spells lexemes text) (blanks : Nat) :
    Text.splitGap (List.replicate blanks ' ' ++ text) = (List.replicate blanks ' ', text) := by
  induction blanks with
  | zero =>
      obtain ⟨rfl, _⟩ | ⟨c, rest, _, _, rfl, ink, _⟩ := spells.head
      · exact Text.splitGap_nil
      · simp only [Lexeme.isInk, Bool.and_eq_true, Bool.not_eq_true', bne_iff_ne] at ink
        exact Text.splitGap_other ink.1.1 ink.1.2 fun slash => absurd slash ink.2
  | succ blanks ih =>
      rw [List.replicate_succ, List.cons_append, Text.splitGap_blank (by decide), ih]

theorem readFrom (spells : Spells lexemes text) (start : Nat) :
    ∃ tokens, Token.readFrom start text = .ok tokens ∧ tokens.map Token.lexeme = lexemes := by
  induction spells generalizing start with
  | nil => exact ⟨[], by rw [Token.readFrom], rfl⟩
  | @cons lexeme more text blanks spelled meets behind ih =>
      obtain ⟨c, rest, spelling, ink⟩ := Lexeme.exists_ink spelled
      have ends : (List.replicate blanks ' ' ++ text).head?.all
          fun next => lexeme.endsBefore next := by
        cases blanks with
        | zero =>
            obtain ⟨rfl, _⟩ | ⟨d, _, next, _, rfl, _, rfl, starts⟩ := behind.head
            · rfl
            · have apart := meets rfl next rfl
              rw [Lexeme.meets, starts] at apart
              exact apart
        | succ blanks =>
            simp only [List.replicate_succ, List.cons_append, List.head?_cons, Option.all_some]
            exact Lexeme.endsBefore_blank lexeme
      have read := Lexeme.read?_spelling spelled spelling ends
      obtain ⟨tokens, done, same⟩ := ih
        (start + Text.size lexeme.spelling + Text.size (List.replicate blanks ' '))
      refine ⟨⟨lexeme, start, List.replicate blanks ' '⟩ :: tokens, ?_, ?_⟩
      · rw [spelling, List.append_assoc, List.cons_append, Token.readFrom, if_neg]
        · split
          · next none => cases read.symm.trans none
          · next lexeme' after read' =>
              cases read.symm.trans read'
              rw [behind.splitGap]
              exact Except.map_ok_iff.2 ⟨tokens, done, rfl⟩
        · simp only [Lexeme.isInk, Bool.and_eq_true, bne_iff_ne] at ink
          simp [Text.startsWith, Text.after?, Delimiter.opening, Ne.symm ink.2]
      · rw [List.map_cons, same]

/-- The lexer finds the lexemes that a text spells. -/
theorem ofText (spells : Spells lexemes text) :
    ∃ lexed, Lexed.ofText text = .ok lexed ∧ lexed.tokens.map Token.lexeme = lexemes := by
  have gap := spells.splitGap 0
  obtain ⟨tokens, read, same⟩ := spells.readFrom 0
  rw [List.replicate_zero, List.nil_append] at gap
  refine ⟨⟨[], tokens⟩, ?_, same⟩
  rw [Lexed.ofText, gap]
  exact Except.map_ok_iff.2 ⟨tokens, read, rfl⟩

/-! ### Putting spellings together -/

theorem single (lexeme : Lexeme) (spelled : lexeme.isSpelled) :
    Spells [lexeme] lexeme.spelling := by
  have whole := Spells.cons 0 spelled (fun _ next none => by cases none) .nil
  rwa [List.replicate_zero, List.append_nil, List.append_nil] at whole

theorem joined (lexeme : Lexeme) (spelled : lexeme.isSpelled)
    (meets : ∀ next ∈ lexemes.head?, lexeme.meets next) (behind : Spells lexemes text) :
    Spells (lexeme :: lexemes) (lexeme.spelling ++ text) := by
  have whole := Spells.cons 0 spelled (fun _ => meets) behind
  rwa [List.replicate_zero, List.append_nil] at whole

theorem spaced (lexeme : Lexeme) (spelled : lexeme.isSpelled) (behind : Spells lexemes text) :
    Spells (lexeme :: lexemes) (lexeme.spelling ++ ' ' :: text) := by
  have whole := Spells.cons 1 spelled (fun none => by cases none) behind
  rwa [List.append_assoc] at whole

theorem mark (mark : Lexeme) (isMark : mark.isMark) (behind : Spells lexemes text) :
    Spells (mark :: lexemes) (mark.spelling ++ text) := by
  refine joined mark ?_ (fun next _ => Lexeme.mark_meets isMark next) behind
  cases mark with
  | punctuation mark => cases mark <;> first | rfl | cases isMark
  | _ => first | rfl | cases isMark

theorem append (front : Spells lexemes text) (behind : Spells lexemes' text')
    (meets : ∀ last ∈ lexemes.getLast?, ∀ first ∈ lexemes'.head?, last.meets first) :
    Spells (lexemes ++ lexemes') (text ++ text') := by
  induction front with
  | nil => exact behind
  | @cons lexeme more text blanks spelled apart spells ih =>
      rw [List.append_assoc]
      cases more with
      | nil =>
          cases spells
          exact .cons blanks spelled (fun _ next first => meets lexeme rfl next first) behind
      | cons next more =>
          refine .cons blanks spelled apart (ih ?_)
          rwa [List.getLast?_cons_cons] at meets

theorem append_mark (front : Spells lexemes text) (mark : Lexeme) (isMark : mark.isMark)
    (behind : Spells lexemes' text') :
    Spells (lexemes ++ mark :: lexemes') (text ++ (mark.spelling ++ text')) := by
  refine front.append (behind.mark mark isMark) ?_
  intro last _ first head
  cases head
  exact Lexeme.meets_mark last isMark

theorem append_blank (front : Spells lexemes text) (some : lexemes ≠ [])
    (behind : Spells lexemes' text') : Spells (lexemes ++ lexemes') (text ++ ' ' :: text') := by
  induction front with
  | nil => exact absurd rfl some
  | @cons lexeme more text blanks spelled apart spells ih =>
      rw [List.append_assoc]
      cases more with
      | nil =>
          cases spells
          have whole := Spells.cons (blanks + 1) spelled (fun none => by cases none) behind
          rw [List.replicate_succ', List.append_assoc, List.append_assoc] at whole
          rw [List.append_assoc]
          exact whole
      | cons next more => exact .cons blanks spelled apart (ih (List.cons_ne_nil _ _))

end Spells

end PxdStub
