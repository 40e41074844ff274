import PxdStub.Proofs.Lexing
import PxdStub.Proofs.Twins

/-!
The source of a run of tokens is read as that run again. What a token is depends on its own text and
on the first characters behind it, so nothing in front of a cut changes when a text is cut behind a
token or in a gap.
-/

namespace PxdStub

/-! ### Blanks at the end -/

namespace Text

theorem trimRight_append (front back : List Char) : trimRight (front ++ back) =
    if trimRight back = [] then trimRight front else front ++ trimRight back := by
  rw [trimRight, trimRight, trimRight, List.reverse_append, List.dropWhile_append]
  by_cases none : back.reverse.dropWhile isBlank = []
  · simp [none]
  · simp [none]

theorem trimRight_ink {c : Char} (ink : isBlank c = false) : trimRight [c] = [c] := by
  simp [trimRight, ink]

theorem trimRight_blank {c : Char} (blank : isBlank c) : trimRight [c] = [] := by
  simp [trimRight, blank]

theorem trimRight_cons_ink {c : Char} (ink : isBlank c = false) (text : List Char) :
    trimRight (c :: text) = c :: trimRight text := by
  rw [← List.singleton_append, trimRight_append, trimRight_ink ink]
  split
  · next none => rw [none]
  · rfl

theorem isPrefix_trimRight (text : List Char) : trimRight text <+: text := by
  have cut : text.reverse.dropWhile isBlank <:+ text.reverse := List.dropWhile_suffix _
  rw [← List.reverse_prefix, List.reverse_reverse] at cut
  exact cut

theorem trimRight_trimRight (text : List Char) : trimRight (trimRight text) = trimRight text := by
  rw [trimRight, trimRight, List.reverse_reverse, List.dropWhile_idempotent]

theorem trimRight_append_trimRight (front back : List Char) :
    trimRight (front ++ trimRight back) = trimRight (front ++ back) := by
  rw [trimRight_append, trimRight_append front back, trimRight_trimRight]

theorem trimLeft_trimRight (text : List Char) :
    trimLeft (trimRight text) = trimRight (trimLeft text) := by
  induction text with
  | nil => rfl
  | cons c text ih =>
      by_cases blank : isBlank c
      · rw [trimLeft, trimLeft, List.dropWhile_cons_of_pos blank, ← List.singleton_append,
          trimRight_append, trimRight_blank blank]
        split
        · next none => exact none ▸ ih
        · rw [List.singleton_append, List.dropWhile_cons_of_pos blank]
          exact ih
      · rw [trimRight_cons_ink (by simpa using blank), trimLeft, trimLeft,
          List.dropWhile_cons_of_neg blank, List.dropWhile_cons_of_neg blank,
          trimRight_cons_ink (by simpa using blank)]

theorem trim_append_trimRight (front back : List Char) :
    trim (front ++ trimRight back) = trim (front ++ back) := by
  rw [trim, trim, ← trimLeft_trimRight, ← trimLeft_trimRight, trimRight_append_trimRight]

/-! ### Gaps that are cut -/

theorem splitLine_cut {text behind : List Char} (cut : behind <+: (splitLine text).2) :
    splitLine ((splitLine text).1 ++ behind) = ((splitLine text).1, behind) := by
  induction text with
  | nil =>
      rw [splitLine, List.prefix_nil] at cut
      rw [cut]
      rfl
  | cons c text ih =>
      by_cases feed : c = '\n'
      · simp [splitLine, feed]
      · rw [splitLine, if_neg feed] at cut ⊢
        rw [List.cons_append, splitLine, if_neg feed, ih cut]

theorem getLast?_of_splitComment? {text inside after : List Char}
    (found : splitComment? text = some (inside, after)) : inside.getLast? = some '/' := by
  fun_induction splitComment? text generalizing inside with
  | case1 => cases found
  | case2 rest =>
      cases found
      rfl
  | case3 c rest other ih =>
      obtain ⟨⟨inner, _⟩, later, same⟩ := Option.map_eq_some_iff.1 found
      cases same
      rw [List.getLast?_cons, ih later]
      rfl

theorem splitComment?_cut {text inside after : List Char}
    (found : splitComment? text = some (inside, after)) (behind : List Char) :
    splitComment? (inside ++ behind) = some (inside, behind) := by
  fun_induction splitComment? text generalizing inside with
  | case1 => cases found
  | case2 rest =>
      cases found
      rfl
  | case3 c rest other ih =>
      obtain ⟨⟨inner, _⟩, later, same⟩ := Option.map_eq_some_iff.1 found
      cases same
      have whole := eq_of_splitComment? later
      rw [List.cons_append, splitComment?, ih later]
      · rfl
      · intro rest' star slash
        obtain _ | ⟨d, inner⟩ := inner
        · cases getLast?_of_splitComment? later
        · obtain ⟨rfl, _⟩ := List.cons.inj slash
          exact other _ star whole

theorem startsLine_append {c : Char} {rest : List Char} (starts : startsLine c rest)
    (behind : List Char) : startsLine c ((splitLine rest).1 ++ behind) := by
  rw [startsLine_iff] at starts ⊢
  obtain hash | ⟨slash, head⟩ := starts
  · exact Or.inl hash
  · refine Or.inr ⟨slash, ?_⟩
    obtain _ | ⟨d, rest⟩ := rest
    · cases head
    · rw [splitLine]
      split <;> exact head

theorem startsWith_of_isPrefix {word text more : List Char} (starts : startsWith word text)
    (within : text <+: more) : startsWith word more := by
  obtain ⟨rest, found⟩ := Option.isSome_iff_exists.1 starts
  obtain ⟨behind, rfl⟩ := within
  rw [after?_eq_some_iff.1 found, List.append_assoc]
  exact Option.isSome_iff_exists.2 ⟨_, after?_eq_some_iff.2 rfl⟩

theorem splitGap_line_cut {c : Char} {rest behind : List Char} (starts : startsLine c rest)
    (cut : behind <+: (splitGap (splitLine rest).2).2)
    (later : splitGap ((splitGap (splitLine rest).2).1 ++ behind) =
      ((splitGap (splitLine rest).2).1, behind)) :
    splitGap (c :: (splitLine rest).1 ++ (splitGap (splitLine rest).2).1 ++ behind) =
      (c :: (splitLine rest).1 ++ (splitGap (splitLine rest).2).1, behind) := by
  have within : (splitGap (splitLine rest).2).1 ++ behind <+: (splitLine rest).2 := by
    obtain ⟨more, whole⟩ := cut
    refine ⟨more, ?_⟩
    rw [List.append_assoc, whole, splitGap_append]
  rw [List.append_assoc, List.cons_append, splitGap_line (startsLine_append starts _),
    splitLine_cut within, later]

/-- A gap is found again when the text behind it is cut, unless a comment is left open there. -/
theorem splitGap_front {text behind : List Char}
    (closed : behind ≠ [] → startsWith Delimiter.comment.opening (splitGap text).2 = false)
    (cut : behind <+: (splitGap text).2) :
    splitGap ((splitGap text).1 ++ behind) = ((splitGap text).1, behind) := by
  fun_induction splitGap text with
  | case1 =>
      rw [List.prefix_nil] at cut
      rw [cut]
      exact splitGap_nil
  | case2 c rest blank ih => rw [List.cons_append, splitGap_blank blank, ih closed cut]
  | case3 rest _ _ ih => exact splitGap_line_cut rfl cut (ih closed cut)
  | case4 c rest _ _ slashes _ ih =>
      have starts : startsLine c rest := startsLine_iff.2 (Or.inr (by simpa using slashes))
      exact splitGap_line_cut starts cut (ih closed cut)
  | case5 c rest _ _ _ opened inside after found ih =>
      simp only [Bool.and_eq_true, decide_eq_true_eq] at opened
      obtain ⟨rfl, _⟩ := opened
      have later := splitGap_comment (splitComment?_cut found ((splitGap after).1 ++ behind))
      rw [ih closed cut] at later
      simpa using later
  | case6 c rest _ _ _ opened none =>
      by_cases nothing : behind = []
      · rw [nothing]
        exact splitGap_nil
      · obtain _ | ⟨d, rest⟩ := rest
        · simp at opened
        · simp only [List.head?_cons, Bool.and_eq_true, decide_eq_true_eq, Option.some.injEq]
            at opened
          rw [opened.1, opened.2] at closed
          cases closed nothing
  | case7 c rest ink hash slashes opened =>
      obtain _ | ⟨d, behind⟩ := behind
      · exact splitGap_nil
      · obtain ⟨rfl, within⟩ := List.cons_prefix_cons.1 cut
        refine splitGap_other (by simpa using ink) hash fun slash => ?_
        have apart : rest.head? ≠ some '/' ∧ rest.head? ≠ some '*' := by
          simpa [slash] using And.intro slashes opened
        obtain _ | ⟨e, behind⟩ := behind
        · simp
        · obtain ⟨more, rfl⟩ := within
          exact apart

theorem splitGap_cut {text behind : List Char}
    (closed : startsWith Delimiter.comment.opening (splitGap text).2 = false)
    (cut : behind <+: (splitGap text).2) :
    splitGap ((splitGap text).1 ++ behind) = ((splitGap text).1, behind) :=
  splitGap_front (fun _ => closed) cut

theorem splitGap_splitGap (text : List Char) :
    splitGap (splitGap text).2 = ([], (splitGap text).2) := by
  fun_induction splitGap text with
  | case1 => exact splitGap_nil
  | case2 _ _ _ ih | case3 _ _ _ ih | case4 _ _ _ _ _ _ ih | case5 _ _ _ _ _ _ _ _ _ ih => exact ih
  | case6 c rest ink hash slashes opened none =>
      rw [splitGap, if_neg ink, if_neg hash, if_neg slashes, if_pos opened]
      split
      · next found => cases none.symm.trans found
      · rfl
  | case7 c rest ink hash slashes opened =>
      rw [splitGap, if_neg ink, if_neg hash, if_neg slashes, if_neg opened]

theorem splitLine_trimRight (text : List Char) :
    splitLine (trimRight (splitLine text).1) = (trimRight (splitLine text).1, []) := by
  induction text with
  | nil => rfl
  | cons c text ih =>
      by_cases feed : c = '\n'
      · rw [splitLine, if_pos feed, feed]
        rfl
      · have single : splitLine [c] = ([c], []) := by simp [splitLine, feed]
        rw [splitLine, if_neg feed]
        dsimp only
        rw [← List.singleton_append, trimRight_append]
        split
        · by_cases blank : isBlank c
          · rw [trimRight_blank blank]
            rfl
          · rw [trimRight_ink (by simpa using blank), single]
        · rw [List.singleton_append, splitLine, if_neg feed, ih]

/-- Blanks, comments and directives without anything behind them. -/
def IsGap (text : List Char) : Prop :=
  splitGap text = (text, [])

theorem isGap_of_end {text : List Char} (ended : (splitGap text).2 = []) : IsGap text := by
  have whole := splitGap_append text
  rw [ended, List.append_nil] at whole
  exact Prod.ext whole ended

theorem isGap_nil : IsGap [] :=
  splitGap_nil

theorem trimRight_of_getLast? {text : List Char} {c : Char} (last : text.getLast? = some c)
    (ink : isBlank c = false) : trimRight text = text := by
  obtain ⟨front, rfl⟩ := List.getLast?_eq_some_iff.1 last
  rw [trimRight_append, trimRight_ink ink, if_neg (List.cons_ne_nil _ _)]

theorem isGap_trimRight_line {c : Char} {rest : List Char} (ink : isBlank c = false)
    (starts : startsLine c rest) (behind : IsGap (trimRight (splitLine rest).2)) :
    IsGap (trimRight (c :: rest)) := by
  rw [trimRight_cons_ink ink, ← splitLine_append rest, trimRight_append]
  split
  · have starts' : startsLine c (trimRight (splitLine rest).1) := by
      rw [startsLine_iff] at starts ⊢
      obtain hash | ⟨slash, head⟩ := starts
      · exact Or.inl hash
      · obtain _ | ⟨d, rest⟩ := rest
        · cases head
        · cases head
          rw [splitLine, if_neg (by decide)]
          dsimp only
          rw [trimRight_cons_ink (by decide)]
          exact Or.inr ⟨slash, rfl⟩
    exact isGap_of_end (by rw [splitGap_line starts', splitLine_trimRight, splitGap_nil])
  · refine isGap_of_end ?_
    rw [splitGap_line (startsLine_append starts _), splitLine_cut (isPrefix_trimRight _), behind]

/-- A gap may lose the blanks at its end. -/
theorem isGap_trimRight {text : List Char} (ended : (splitGap text).2 = []) :
    IsGap (trimRight text) := by
  fun_induction splitGap text with
  | case1 => exact isGap_nil
  | case2 c rest blank ih =>
      rw [← List.singleton_append, trimRight_append, trimRight_blank blank]
      split
      · exact isGap_nil
      · refine isGap_of_end ?_
        rw [List.singleton_append, splitGap_blank blank, ih ended]
  | case3 rest _ _ ih => exact isGap_trimRight_line (by decide) rfl (ih ended)
  | case4 c rest ink _ slashes _ ih =>
      exact isGap_trimRight_line (by simpa using ink) (by simp [startsLine, slashes]) (ih ended)
  | case5 c rest _ _ _ opened inside after found ih =>
      obtain _ | ⟨d, rest⟩ := rest
      · simp at opened
      · simp only [List.head?_cons, Bool.and_eq_true, decide_eq_true_eq, Option.some.injEq]
          at opened
        obtain ⟨rfl, rfl⟩ := opened
        rw [List.tail_cons] at found
        have last : ('/' :: '*' :: inside).getLast? = some '/' := by
          rw [List.getLast?_cons, List.getLast?_cons, getLast?_of_splitComment? found]
          rfl
        have kept : trimRight ('/' :: '*' :: rest) = '/' :: '*' :: (inside ++ trimRight after) := by
          rw [eq_of_splitComment? found, ← List.cons_append, ← List.cons_append, trimRight_append,
            trimRight_of_getLast? last (by decide)]
          split
          · next none => simp [none]
          · rfl
        refine isGap_of_end ?_
        rw [kept, splitGap_comment (splitComment?_cut found _), ih ended]
  | case6 => cases ended
  | case7 => cases ended

end Text

/-! ### Lexemes in front of a cut -/

namespace Lexeme

theorem quoted?_cut {quote : Char} (plain : quote ≠ '\\') {text inside after : List Char}
    (found : quoted? quote text = some (inside, after)) :
    text = inside ++ quote :: after ∧
      ∀ behind, quoted? quote (inside ++ quote :: behind) = some (inside, behind) := by
  fun_induction quoted? quote text generalizing inside with
  | case1 => cases found
  | case2 c rest ih =>
      obtain ⟨⟨inner, _⟩, later, same⟩ := Option.map_eq_some_iff.1 found
      cases same
      obtain ⟨whole, cut⟩ := ih later
      refine ⟨by rw [whole]; rfl, fun behind => ?_⟩
      rw [List.cons_append, List.cons_append, quoted?, cut]
      rfl
  | case3 rest other =>
      cases found
      refine ⟨rfl, fun behind => ?_⟩
      rw [List.nil_append, quoted?, if_pos rfl]
      exact fun c behind backslash _ => plain backslash
  | case4 c rest other unquoted ih =>
      obtain ⟨⟨inner, _⟩, later, same⟩ := Option.map_eq_some_iff.1 found
      cases same
      obtain ⟨whole, cut⟩ := ih later
      refine ⟨by rw [whole]; rfl, fun behind => ?_⟩
      rw [List.cons_append, quoted?, if_neg unquoted, cut]
      · rfl
      · intro d behind' backslash _
        obtain ⟨e, rest', rfl⟩ : ∃ e rest', rest = e :: rest' := by
          cases inner <;> exact ⟨_, _, whole⟩
        exact other e rest' backslash rfl

theorem takeWhile_cut {stops : Char → Bool} {rest behind : List Char}
    (cut : behind <+: rest.dropWhile stops) :
    (rest.takeWhile stops ++ behind).takeWhile stops = rest.takeWhile stops ∧
      (rest.takeWhile stops ++ behind).dropWhile stops = behind := by
  refine takeWhile_of_head List.all_takeWhile ?_
  obtain _ | ⟨d, behind⟩ := behind
  · rfl
  · obtain ⟨more, whole⟩ := cut
    have head := List.head?_dropWhile_not stops rest
    rw [← whole] at head
    simpa using head

theorem spelling_ofChar (c : Char) : (ofChar c).spelling = [c] := by
  unfold ofChar
  split <;> rfl

/-- The mark at the start of a text, which has one character or more. -/
def readMark (c : Char) (rest : List Char) : Lexeme × List Char :=
  match c, rest with
  | ':', ':' :: after => (.punctuation .scope, after)
  | '.', '.' :: '.' :: after => (.punctuation .ellipsis, after)
  | _, _ => (ofChar c, rest)

theorem read?_of_unquoted {c : Char} (noQuote : c ≠ '"') (noApostrophe : c ≠ '\'')
    (rest : List Char) : read? c rest =
      if c.isDigit then some (.number (String.ofList (c :: rest.takeWhile isNumberPart)),
        rest.dropWhile isNumberPart)
      else if isWordStart c then some (ofWord (String.ofList (c :: rest.takeWhile isWordPart)),
        rest.dropWhile isWordPart)
      else some (readMark c rest) := by
  rw [read?.eq_def, if_neg noQuote, if_neg noApostrophe]
  split
  · rfl
  · split
    · rfl
    · fun_cases readMark c rest with
      | case1 => rfl
      | case2 => rfl
      | case3 =>
          split
          · next noScope _ => exact (noScope _ rfl rfl).elim
          · next noEllipsis => exact (noEllipsis _ rfl rfl).elim
          · rfl

theorem readMark_cut {c : Char} {rest after : List Char} {lexeme : Lexeme}
    (found : readMark c rest = (lexeme, after)) :
    ∃ front, rest = front ++ after ∧ lexeme.spelling = c :: front ∧
      ∀ behind, behind <+: after → readMark c (front ++ behind) = (lexeme, behind) := by
  revert found
  fun_cases readMark c rest with
  | case1 =>
      rintro ⟨⟩
      exact ⟨[':'], rfl, rfl, fun _ _ => rfl⟩
  | case2 =>
      rintro ⟨⟩
      exact ⟨['.', '.'], rfl, rfl, fun _ _ => rfl⟩
  | case3 _ _ noScope noEllipsis =>
      rintro ⟨⟩
      refine ⟨[], rfl, spelling_ofChar c, fun behind cut => ?_⟩
      obtain ⟨more, rfl⟩ := cut
      rw [List.nil_append, readMark.eq_def]
      split
      · exact (noScope _ rfl rfl).elim
      · exact (noEllipsis _ rfl rfl).elim
      · rfl

/-- A lexeme is found again when the text behind it is cut. -/
theorem read?_cut {c : Char} {rest after : List Char} {lexeme : Lexeme}
    (found : read? c rest = some (lexeme, after)) :
    ∃ front, rest = front ++ after ∧ lexeme.spelling = c :: front ∧
      ∀ behind, behind <+: after → read? c (front ++ behind) = some (lexeme, behind) := by
  by_cases quote : c = '"'
  · rw [read?.eq_def, if_pos quote] at found
    obtain ⟨⟨inside, _⟩, inner, same⟩ := Option.map_eq_some_iff.1 found
    cases same
    obtain ⟨whole, cut⟩ := quoted?_cut (by rw [quote]; decide) inner
    refine ⟨inside ++ [c], by simp [whole], by simp [spelling, quote], fun behind _ => ?_⟩
    rw [read?.eq_def, if_pos quote, List.append_assoc, List.singleton_append, cut]
    rfl
  by_cases apostrophe : c = '\''
  · rw [read?.eq_def, if_neg quote, if_pos apostrophe] at found
    obtain ⟨⟨inside, _⟩, inner, same⟩ := Option.map_eq_some_iff.1 found
    cases same
    obtain ⟨whole, cut⟩ := quoted?_cut (by rw [apostrophe]; decide) inner
    refine ⟨inside ++ [c], by simp [whole], by simp [spelling, apostrophe], fun behind _ => ?_⟩
    rw [read?.eq_def, if_neg quote, if_pos apostrophe, List.append_assoc, List.singleton_append, cut]
    rfl
  rw [read?_of_unquoted quote apostrophe] at found
  simp only [read?_of_unquoted quote apostrophe]
  split at found
  · next digit =>
      cases found
      refine ⟨_, List.takeWhile_append_dropWhile.symm, by simp [spelling], fun behind cut => ?_⟩
      obtain ⟨take, drop⟩ := takeWhile_cut cut
      rw [if_pos digit, take, drop]
  · next noDigit =>
      split at found
      · next word =>
          cases found
          refine ⟨_, List.takeWhile_append_dropWhile.symm, by simp [spelling_ofWord],
            fun behind cut => ?_⟩
          obtain ⟨take, drop⟩ := takeWhile_cut cut
          rw [if_neg noDigit, if_pos word, take, drop]
      · next noWord =>
          obtain ⟨front, whole, spelled, cut⟩ := readMark_cut (Option.some.inj found)
          refine ⟨front, whole, spelled, fun behind within => ?_⟩
          rw [if_neg noDigit, if_neg noWord, cut behind within]

theorem isNumberPart_of_isWordPart {c : Char} (part : isWordPart c) : isNumberPart c := by
  simp only [isWordPart, isNumberPart, Bool.or_eq_true] at part ⊢
  obtain alphanum | under := part
  · exact Or.inl (Or.inl alphanum)
  · exact Or.inr under

theorem not_blank_of_isNumberPart {c : Char} (part : isNumberPart c) : Text.isBlank c = false := by
  have range : 0x2E ≤ c.toNat ∧ c.toNat ≤ 0x7A := by
    simp only [isNumberPart, Char.isAlphanum, Char.isAlpha, Char.isUpper, Char.isLower, Char.isDigit,
      Bool.or_eq_true, Bool.and_eq_true, decide_eq_true_eq, beq_iff_eq] at part
    obtain ((((⟨low, high⟩ | ⟨low, high⟩) | ⟨low, high⟩) | rfl) | rfl) := part
    · exact ⟨le_trans (by decide) low, le_trans high (by decide)⟩
    · exact ⟨le_trans (by decide) low, le_trans high (by decide)⟩
    · exact ⟨le_trans (by decide) low, le_trans high (by decide)⟩
    · decide
    · decide
  simp only [Text.isBlank, Bool.or_eq_false_iff, Bool.and_eq_false_iff, beq_eq_false_iff_ne,
    decide_eq_false_iff_not]
  omega

/-- Text with which no lexeme in front of it goes on. -/
def endsLexeme (text : List Char) : Bool :=
  text.head?.all fun next => Text.isBlank next || next = '/' || next = '"'

theorem endsLexeme_of_blank {text : List Char} (blank : text.head?.all Text.isBlank) :
    endsLexeme text := by
  cases text with
  | nil => rfl
  | cons c text =>
      rw [List.head?_cons, Option.all_some] at blank
      simp [endsLexeme, blank]

/-- Text with which no word, number or mark in front of it goes on. -/
def standsApart (text : List Char) : Bool :=
  text.head?.all fun next => !isNumberPart next && next != ':'

theorem standsApart_of_endsLexeme {text : List Char} (ends : endsLexeme text) :
    standsApart text := by
  cases text with
  | nil => rfl
  | cons c text =>
      rw [standsApart, List.head?_cons, Option.all_some]
      by_contra part
      have part : isNumberPart c ∨ c = ':' := by
        by_contra apart
        rw [not_or] at apart
        exact part (by simp [apart])
      have blank : Text.isBlank c = false := by
        obtain part | rfl := part
        · exact not_blank_of_isNumberPart part
        · rfl
      simp only [endsLexeme, List.head?_cons, Option.all_some, blank, Bool.false_or, Bool.or_eq_true,
        decide_eq_true_eq] at ends
      revert part
      obtain rfl | rfl := ends <;> decide

theorem not_isNumberPart_of_standsApart {text : List Char} (apart : standsApart text) :
    text.head?.all fun next => !isNumberPart next := by
  cases text with
  | nil => rfl
  | cons c text =>
      rw [standsApart, List.head?_cons, Option.all_some, Bool.and_eq_true] at apart
      exact apart.1

theorem not_isWordPart_of_standsApart {text : List Char} (apart : standsApart text) :
    text.head?.all fun next => !isWordPart next := by
  have part := not_isNumberPart_of_standsApart apart
  cases text with
  | nil => rfl
  | cons c text =>
      rw [List.head?_cons, Option.all_some] at part ⊢
      by_contra word
      rw [isNumberPart_of_isWordPart (by simpa using word)] at part
      cases part

theorem readMark_append {behind : List Char} (apart : standsApart behind) (c : Char)
    (front : List Char) :
    readMark c (front ++ behind) = ((readMark c front).1, (readMark c front).2 ++ behind) := by
  have apart : ∀ d rest, behind = d :: rest → d ≠ ':' ∧ d ≠ '.' := by
    rintro d rest rfl
    constructor <;> rintro rfl <;> cases apart
  fun_cases readMark c front with
  | case1 => rfl
  | case2 => rfl
  | case3 =>
      rw [readMark.eq_def]
      split
      · next scope noScope _ =>
          obtain _ | ⟨d, front⟩ := front
          · exact absurd rfl (apart _ _ scope).1
          · obtain ⟨rfl, _⟩ := List.cons.inj scope
            exact (noScope _ rfl rfl).elim
      · next ellipsis _ noEllipsis =>
          obtain _ | ⟨d, _ | ⟨e, front⟩⟩ := front
          · exact absurd rfl (apart _ _ ellipsis).2
          · exact absurd rfl (apart _ _ (List.cons.inj ellipsis).2).2
          · simp only [List.cons_append, List.cons.injEq] at ellipsis
            obtain ⟨rfl, rfl, _⟩ := ellipsis
            exact (noEllipsis _ rfl rfl).elim
      · rfl

/-- A lexeme that is no literal is read in front of other text as it is read on its own. -/
theorem read?_append_of_standsApart {c : Char} (noQuote : c ≠ '"') (noApostrophe : c ≠ '\'')
    {behind : List Char} (apart : standsApart behind) (front : List Char) :
    read? c (front ++ behind) =
      (read? c front).map fun (lexeme, rest) => (lexeme, rest ++ behind) := by
  obtain ⟨take, drop⟩ := takeWhile_append_of_head (not_isNumberPart_of_standsApart apart) front
  obtain ⟨take', drop'⟩ := takeWhile_append_of_head (not_isWordPart_of_standsApart apart) front
  rw [read?_of_unquoted noQuote noApostrophe, read?_of_unquoted noQuote noApostrophe, take, drop,
    take', drop', readMark_append apart]
  split
  · rfl
  · split <;> rfl

theorem read?_append {c : Char} (noQuote : c ≠ '"') (noApostrophe : c ≠ '\'')
    {behind : List Char} (ends : endsLexeme behind) (front : List Char) :
    read? c (front ++ behind) =
      (read? c front).map fun (lexeme, rest) => (lexeme, rest ++ behind) :=
  read?_append_of_standsApart noQuote noApostrophe (standsApart_of_endsLexeme ends) front

/-- Lexemes that begin with no blank end with none. -/
theorem ink_of_read? {c : Char} {rest after : List Char} {lexeme : Lexeme}
    (found : read? c rest = some (lexeme, after)) (ink : Text.isBlank c = false) :
    ∃ last, lexeme.spelling.getLast? = some last ∧ Text.isBlank last = false := by
  have run : ∀ front : List Char, (∀ d ∈ front, isNumberPart d) →
      ∃ last, (c :: front).getLast? = some last ∧ Text.isBlank last = false := by
    intro front parts
    refine ⟨_, List.getLast?_eq_some_getLast (List.cons_ne_nil c front), ?_⟩
    obtain same | mem := List.mem_cons.1 (List.getLast_mem (List.cons_ne_nil c front))
    · rw [same]
      exact ink
    · exact not_blank_of_isNumberPart (parts _ mem)
  unfold read? at found
  split at found
  · obtain ⟨⟨inside, _⟩, _, same⟩ := Option.map_eq_some_iff.1 found
    cases same
    exact ⟨'"', List.getLast?_concat, rfl⟩
  · split at found
    · obtain ⟨⟨inside, _⟩, _, same⟩ := Option.map_eq_some_iff.1 found
      cases same
      exact ⟨'\'', List.getLast?_concat, rfl⟩
    · split at found
      · cases found
        rw [spelling, String.toList_ofList]
        exact run _ fun d mem => List.mem_takeWhile_imp mem
      · split at found
        · cases found
          rw [spelling_ofWord, String.toList_ofList]
          exact run _ fun d mem => isNumberPart_of_isWordPart (List.mem_takeWhile_imp mem)
        · split at found
          · cases found
            exact ⟨':', rfl, rfl⟩
          · cases found
            exact ⟨'.', rfl, rfl⟩
          · cases found
            rw [spelling_ofChar]
            exact ⟨c, rfl, ink⟩

end Lexeme

/-! ### Tokens in front of a cut -/

namespace Token

theorem readFrom_of_read? {start : Nat} {c : Char} {rest after behind gap : List Char}
    {lexeme : Lexeme} (plain : Text.startsWith Delimiter.comment.opening (c :: rest) = false)
    (read : Lexeme.read? c rest = some (lexeme, after))
    (split : Text.splitGap after = (gap, behind)) : readFrom start (c :: rest) =
      (readFrom (start + Text.size lexeme.spelling + Text.size gap) behind).map
        fun tokens => ⟨lexeme, start, gap⟩ :: tokens := by
  rw [readFrom, if_neg (by simp [plain])]
  split
  · next none => cases read.symm.trans none
  · next lexeme' after' read' =>
      cases read.symm.trans read'
      rw [split]

theorem readFrom_cons {start : Nat} {c : Char} {rest after behind gap : List Char} {lexeme : Lexeme}
    {tokens : List Token} (plain : Text.startsWith Delimiter.comment.opening (c :: rest) = false)
    (read : Lexeme.read? c rest = some (lexeme, after)) (split : Text.splitGap after = (gap, behind))
    (found : readFrom (start + Text.size lexeme.spelling + Text.size gap) behind = .ok tokens) :
    readFrom start (c :: rest) = .ok (⟨lexeme, start, gap⟩ :: tokens) := by
  rw [readFrom_of_read? plain read split, found]
  rfl

theorem eq_of_readFrom_cons {start : Nat} {text : List Char} {token : Token} {tokens : List Token}
    (found : readFrom start text = .ok (token :: tokens)) : ∃ c rest after, text = c :: rest ∧
      Text.startsWith Delimiter.comment.opening (c :: rest) = false ∧
      Lexeme.read? c rest = some (token.lexeme, after) ∧ token.gap = (Text.splitGap after).1 ∧
      readFrom (start + Text.size token.lexeme.spelling + Text.size token.gap)
        (Text.splitGap after).2 = .ok tokens := by
  obtain _ | ⟨c, rest⟩ := text
  · rw [readFrom] at found
    cases found
  · rw [readFrom] at found
    split at found
    · cases found
    · next plain =>
        split at found
        · cases found
        · next lexeme after read =>
            obtain ⟨later, further, same⟩ := Except.map_ok_iff.1 found
            cases same
            exact ⟨c, rest, after, rfl, by simpa using plain, read, rfl, further⟩

/-- A text is the source of its tokens. -/
theorem sourceOf_of_readFrom {start : Nat} {text : List Char} {tokens : List Token}
    (found : readFrom start text = .ok tokens) : sourceOf tokens = text := by
  induction tokens generalizing start text with
  | nil =>
      obtain _ | ⟨c, rest⟩ := text
      · rfl
      · rw [readFrom] at found
        split at found
        · cases found
        · split at found
          · cases found
          · obtain ⟨later, _, same⟩ := Except.map_ok_iff.1 found
            cases same
  | cons token tokens ih =>
      obtain ⟨c, rest, after, rfl, _, read, gap, further⟩ := eq_of_readFrom_cons found
      obtain ⟨front, rfl, spelling, _⟩ := Lexeme.read?_cut read
      have behind := ih further
      change token.lexeme.spelling ++ token.gap ++ sourceOf tokens = c :: (front ++ after)
      rw [behind, gap, List.append_assoc, Text.splitGap_append, spelling]
      rfl

/-- Every token is read from a place in the text, and its gap from the place behind it. -/
theorem read?_of_mem_readFrom {start : Nat} {text : List Char} {tokens : List Token} {token : Token}
    (found : readFrom start text = .ok tokens) (mem : token ∈ tokens) : ∃ c rest after,
      c :: rest <:+ text ∧ after <:+ rest ∧ Lexeme.read? c rest = some (token.lexeme, after) ∧
        token.gap = (Text.splitGap after).1 := by
  induction tokens generalizing start text with
  | nil => cases mem
  | cons first tokens ih =>
      obtain ⟨c, rest, after, rfl, _, read, gap, further⟩ := eq_of_readFrom_cons found
      obtain ⟨front, rfl, _, _⟩ := Lexeme.read?_cut read
      obtain rfl | mem := List.mem_cons.1 mem
      · exact ⟨c, _, after, List.suffix_refl _, List.suffix_append _ _, read, gap⟩
      · obtain ⟨c', rest, after', place, behind⟩ := ih further mem
        have later := (List.suffix_append front after).trans (List.suffix_cons c _)
        exact ⟨c', rest, after', (place.trans (Text.suffix_splitGap after)).trans later, behind⟩

/-- Tokens as the lexer gives them, for the text that they are the source of. -/
def AreLexed (tokens : List Token) : Prop :=
  (∃ start, readFrom start (sourceOf tokens) = .ok tokens) ∧
    Text.splitGap (sourceOf tokens) = ([], sourceOf tokens)

theorem textOf_cons {token : Token} {rest : List Token} (some : rest ≠ []) :
    textOf (token :: rest) = token.lexeme.spelling ++ token.gap ++ textOf rest := by
  obtain ⟨next, more, rfl⟩ := List.exists_cons_of_ne_nil some
  rfl

theorem isPrefix_textOf_append {run : List Token} {gap : List Char} (some : run ≠ [])
    (cut : ∀ last ∈ run.getLast?, gap <+: last.gap) (back : List Token) :
    textOf run ++ gap <+: sourceOf (run ++ back) := by
  induction run with
  | nil => exact absurd rfl some
  | cons token run ih =>
      change _ <+: token.lexeme.spelling ++ token.gap ++ sourceOf (run ++ back)
      by_cases last : run = []
      · subst last
        refine List.IsPrefix.trans ?_ (List.prefix_append _ _)
        exact (List.prefix_append_right_inj _).2 (cut token rfl)
      · rw [List.getLast?_cons_of_ne_nil last] at cut
        rw [textOf_cons last, List.append_assoc]
        exact (List.prefix_append_right_inj _).2 (ih last cut)

namespace AreLexed

theorem tail {token : Token} {rest : List Token} (lexed : AreLexed (token :: rest)) :
    AreLexed rest := by
  obtain ⟨⟨start, found⟩, _⟩ := lexed
  obtain ⟨_, _, after, _, _, _, _, further⟩ := eq_of_readFrom_cons found
  have whole := sourceOf_of_readFrom further
  exact ⟨⟨_, by rwa [whole]⟩, by rw [whole]; exact Text.splitGap_splitGap after⟩

theorem suffix {tokens rest : List Token} (lexed : AreLexed tokens) (within : rest <:+ tokens) :
    AreLexed rest := by
  obtain ⟨front, rfl⟩ := within
  induction front with
  | nil => exact lexed
  | cons token front ih => exact ih lexed.tail

theorem areRead {tokens : List Token} (lexed : AreLexed tokens) : AreRead tokens := by
  obtain ⟨⟨start, found⟩, _⟩ := lexed
  exact areRead_of_readFrom found

/-- No token begins with a blank, and none ends with one. -/
theorem ink {token : Token} {rest : List Token} (lexed : AreLexed (token :: rest)) :
    (∃ first, token.lexeme.spelling.head? = some first ∧ Text.isBlank first = false) ∧
      ∃ last, token.lexeme.spelling.getLast? = some last ∧ Text.isBlank last = false := by
  obtain ⟨⟨start, found⟩, split⟩ := lexed
  obtain ⟨c, more, after, whole, _, read, _⟩ := eq_of_readFrom_cons found
  obtain ⟨front, _, spelling, _⟩ := Lexeme.read?_cut read
  have first : Text.isBlank c = false := by
    by_contra blank
    rw [whole, Text.splitGap_blank (by simpa using blank)] at split
    cases split
  exact ⟨⟨c, by rw [spelling]; rfl, first⟩, Lexeme.ink_of_read? read first⟩

theorem isGap {token : Token} {rest : List Token} (lexed : AreLexed (token :: rest)) :
    Text.IsGap token.gap := by
  obtain ⟨⟨start, found⟩, _⟩ := lexed
  obtain ⟨_, _, after, _, _, _, gap, further⟩ := eq_of_readFrom_cons found
  have kept := Text.splitGap_cut (opens_comment_of_ok further) List.nil_prefix
  rw [← gap, List.append_nil] at kept
  exact kept

/-- The text of a run is read as the run again, with any gap behind it that the last token's gap
begins with. -/
theorem readFrom_run {run back : List Token} {gap : List Char} (lexed : AreLexed (run ++ back))
    (some : run ≠ []) (cut : ∀ last ∈ run.getLast?, gap <+: last.gap) (isGap : Text.IsGap gap)
    (start : Nat) :
    ∃ run', readFrom start (textOf run ++ gap) = .ok run' ∧ Alike True run run' := by
  induction run generalizing start with
  | nil => exact absurd rfl some
  | cons token run ih =>
      have lexedRun := lexed.tail
      obtain ⟨⟨_, found⟩, _⟩ := lexed
      obtain ⟨c, rest, after, whole, plain, read, split, further⟩ := eq_of_readFrom_cons found
      obtain ⟨front, rfl, spelling, reads⟩ := Lexeme.read?_cut read
      -- whatever begins as the text does opens no comment
      have plain' : ∀ behind, behind <+: after →
          Text.startsWith Delimiter.comment.opening (c :: (front ++ behind)) = false := by
        intro behind within
        by_contra opens
        have longer : c :: (front ++ behind) <+: c :: (front ++ after) :=
          List.cons_prefix_cons.2 ⟨rfl, (List.prefix_append_right_inj _).2 within⟩
        rw [Text.startsWith_of_isPrefix (by simpa using opens) longer] at plain
        cases plain
      by_cases last : run = []
      · subst last
        have within : gap <+: after := by
          have start := cut token rfl
          rw [split] at start
          exact start.trans ⟨_, Text.splitGap_append after⟩
        refine ⟨[⟨token.lexeme, start, gap⟩], ?_, .cons rfl (fun _ none => absurd rfl none) False.elim
          (.nil False.elim)⟩
        change readFrom start (token.lexeme.spelling ++ gap) = _
        rw [spelling]
        exact readFrom_cons (plain' _ within) (reads _ within) isGap (by rw [readFrom])
      · rw [List.getLast?_cons_of_ne_nil last] at cut
        have later := isPrefix_textOf_append last cut back
        have rest : sourceOf (run ++ back) = _ := sourceOf_of_readFrom further
        rw [rest] at later
        have within : token.gap ++ (textOf run ++ gap) <+: after := by
          obtain ⟨more, behind⟩ := later
          refine ⟨more, ?_⟩
          rw [List.append_assoc, behind, split, Text.splitGap_append]
        have split' := Text.splitGap_cut (opens_comment_of_ok further) later
        rw [← split] at split'
        obtain ⟨run', found', alike⟩ := ih lexedRun last cut
          (start + Text.size token.lexeme.spelling + Text.size token.gap)
        refine ⟨⟨token.lexeme, start, token.gap⟩ :: run', ?_,
          .cons rfl (fun _ _ => rfl) False.elim alike⟩
        rw [textOf_cons last, spelling, List.append_assoc, List.append_assoc, List.cons_append]
        exact readFrom_cons (plain' _ within) (reads _ within) split' found'

theorem ofText_run {run back : List Token} {gap : List Char} (lexed : AreLexed (run ++ back))
    (some : run ≠ []) (cut : ∀ last ∈ run.getLast?, gap <+: last.gap) (isGap : Text.IsGap gap) :
    ∃ run', Lexed.ofText (textOf run ++ gap) = .ok ⟨[], run'⟩ ∧ Alike True run run' ∧
      sourceOf run' = textOf run ++ gap := by
  have within := isPrefix_textOf_append some cut back
  have begins : Text.splitGap (textOf run ++ gap) = ([], textOf run ++ gap) := by
    obtain ⟨⟨_, found⟩, split⟩ := lexed
    have none := congrArg Prod.fst split
    have rest := congrArg Prod.snd split
    dsimp only at none rest
    have kept := @Text.splitGap_cut (sourceOf (run ++ back)) (textOf run ++ gap)
      (by rw [rest]; exact opens_comment_of_ok found) (by rwa [rest])
    rwa [none] at kept
  obtain ⟨run', found, alike⟩ := lexed.readFrom_run some cut isGap 0
  refine ⟨run', ?_, alike, sourceOf_of_readFrom found⟩
  rw [Lexed.ofText, begins]
  exact Except.map_ok_iff.2 ⟨run', found, rfl⟩

end AreLexed

theorem areLexed_of_ofText {text : List Char} {lexed : Lexed}
    (found : Lexed.ofText text = .ok lexed) : AreLexed lexed.tokens := by
  obtain ⟨tokens, read, rfl⟩ := Except.map_ok_iff.1 found
  have whole := sourceOf_of_readFrom read
  exact ⟨⟨_, by rwa [whole]⟩, by rw [whole]; exact Text.splitGap_splitGap text⟩

/-- A text is the source of what the lexer gives. -/
theorem source_of_ofText {text : List Char} {lexed : Lexed}
    (found : Lexed.ofText text = .ok lexed) : lexed.source = text := by
  obtain ⟨tokens, read, rfl⟩ := Except.map_ok_iff.1 found
  rw [Lexed.source, sourceOf_of_readFrom read, Text.splitGap_append]

/-! ### The text that is left -/

theorem textOf_concat (front : List Token) (last : Token) :
    textOf (front ++ [last]) = sourceOf front ++ last.lexeme.spelling := by
  induction front with
  | nil => rfl
  | cons token front ih =>
      rw [List.cons_append, textOf_cons (by simp), ih, ← List.append_assoc]
      rfl

theorem sourceOf_concat (front : List Token) (last : Token) :
    sourceOf (front ++ [last]) = textOf (front ++ [last]) ++ last.gap := by
  rw [textOf_concat, sourceOf_append, List.append_assoc]
  simp [sourceOf]

/-- Tokens, and the same ones without the blanks at the end of their source. -/
theorem twins_of_trimRight {front tokens' : List Token} {last : Token}
    (alike : Alike True (front ++ [last]) tokens')
    (whole : sourceOf tokens' = textOf (front ++ [last]) ++ Text.trimRight last.gap) :
    Twins True True [] [] (front ++ [last]) tokens' := by
  have quote : Text.trim (sourceOf (front ++ [last])) = Text.trim (sourceOf tokens') := by
    rw [whole, sourceOf_concat, Text.trim_append_trimRight]
  induction front generalizing tokens' with
  | nil =>
      obtain _ | ⟨same, gap, _, ⟨_⟩⟩ := alike
      refine .cons same gap (fun _ => ?_) (.nil fun _ => rfl)
      simpa using quote
  | cons token front ih =>
      obtain _ | @⟨_, token', _, rest', same, gap, _, behind⟩ := alike
      have some : front ++ [last] ≠ [] := by simp
      have gap' : token.gap = token'.gap := gap trivial some
      have later : sourceOf rest' = textOf (front ++ [last]) ++ Text.trimRight last.gap := by
        rw [List.cons_append, textOf_cons some, List.append_assoc] at whole
        change token'.lexeme.spelling ++ token'.gap ++ sourceOf rest' = _ at whole
        rw [← same, ← gap'] at whole
        exact List.append_cancel_left whole
      refine .cons same gap (fun _ => by simpa using quote) (ih behind later ?_)
      rw [later, sourceOf_concat, Text.trim_append_trimRight]

theorem AreLexed.trimLeft_sourceOf {tokens : List Token} (lexed : AreLexed tokens) :
    Text.trimLeft (sourceOf tokens) = sourceOf tokens := by
  cases tokens with
  | nil => rfl
  | cons token rest =>
      obtain ⟨first, starts, ink⟩ := lexed.ink.1
      obtain ⟨more, spelling⟩ : ∃ more, token.lexeme.spelling = first :: more :=
        ⟨_, (List.cons_head?_tail starts).symm⟩
      have whole : sourceOf (token :: rest) = first :: (more ++ token.gap ++ sourceOf rest) := by
        change token.lexeme.spelling ++ token.gap ++ sourceOf rest = _
        rw [spelling]
        simp
      rw [whole, Text.trimLeft, List.dropWhile_cons_of_neg (by simp [ink])]

theorem AreLexed.trim_sourceOf {front : List Token} {last : Token}
    (lexed : AreLexed (front ++ [last])) : Text.trim (sourceOf (front ++ [last])) =
      textOf (front ++ [last]) ++ Text.trimRight last.gap := by
  obtain ⟨end_, ends, ink⟩ := (lexed.suffix (List.suffix_append _ _)).ink.2
  have whole : (textOf (front ++ [last])).getLast? = some end_ := by
    rw [textOf_concat, List.getLast?_append, ends]
    rfl
  rw [Text.trim, lexed.trimLeft_sourceOf, sourceOf_concat, Text.trimRight_append]
  split
  · next none => rw [none, List.append_nil, Text.trimRight_of_getLast? whole ink]
  · rfl

/-- The trimmed source of tokens is read as the same tokens again. -/
theorem AreLexed.ofText_trim {tokens : List Token} (lexed : AreLexed tokens) (some : tokens ≠ []) :
    ∃ tokens', Lexed.ofText (Text.trim (sourceOf tokens)) = .ok ⟨[], tokens'⟩ ∧
      Twins True True [] [] tokens tokens' := by
  obtain ⟨front, last, rfl⟩ : ∃ front last, tokens = front ++ [last] :=
    ⟨_, _, (List.dropLast_append_getLast some).symm⟩
  have gap := (lexed.suffix (List.suffix_append _ _)).isGap
  have isGap := Text.isGap_trimRight (congrArg Prod.snd gap)
  have lexed' : AreLexed (front ++ [last] ++ []) := by rwa [List.append_nil]
  obtain ⟨tokens', found, alike, whole⟩ := lexed'.ofText_run some (by
    intro last' ends
    rw [List.getLast?_concat] at ends
    cases ends
    exact Text.isPrefix_trimRight _) isGap
  rw [lexed.trim_sourceOf]
  exact ⟨tokens', found, twins_of_trimRight alike whole⟩

/-- The trimmed source of tokens is empty only where there are none. -/
theorem AreLexed.isEmpty_trim {tokens : List Token} (lexed : AreLexed tokens) :
    (Text.trim (sourceOf tokens)).isEmpty = tokens.isEmpty := by
  by_cases none : tokens = []
  · rw [none]
    rfl
  · obtain ⟨tokens', lexes, twins⟩ := lexed.ofText_trim none
    rw [List.isEmpty_eq_false_iff.2 none, List.isEmpty_eq_false_iff]
    intro empty
    have nothing : Lexed.ofText [] = .ok ⟨[], []⟩ := by cbv
    rw [empty, nothing] at lexes
    cases lexes
    exact none (List.isEmpty_iff.1 twins.isEmpty)

/-- A run among tokens is read anew from its own source text. -/
theorem AreLexed.ofText_infix {tokens run : List Token} (lexed : AreLexed tokens)
    (within : run <:+: tokens) (some : run ≠ []) : textOf run <:+: sourceOf tokens ∧
      ∃ run', Lexed.ofText (textOf run) = .ok ⟨[], run'⟩ ∧ Alike True run run' := by
  obtain ⟨front, back, rfl⟩ := within
  have cut : ∀ last ∈ run.getLast?, ([] : List Char) <+: last.gap := fun _ _ => List.nil_prefix
  have here := isPrefix_textOf_append some cut back
  rw [List.append_nil] at here
  have inside : AreLexed (run ++ back) :=
    lexed.suffix (by rw [List.append_assoc]; exact List.suffix_append _ _)
  obtain ⟨run', lexes, alike, _⟩ := inside.ofText_run some cut Text.isGap_nil
  rw [List.append_nil] at lexes
  refine ⟨?_, run', lexes, alike⟩
  rw [List.append_assoc, sourceOf_append]
  exact here.isInfix.trans (List.suffix_append _ _).isInfix

end Token

end PxdStub
