import PxdStub.Proofs.CodeLines
import PxdStub.Proofs.Markers

/-!
A text is scanned from its start to its end. What the scan finds in a part of the text depends on
that part only, as long as no lexeme and no marker runs on behind it; so the text behind a part can
be changed without a change to the lexemes in front of it.
-/

namespace PxdStub

/-! ### Steps of a scan -/

structure Lexeme.Begins (c : Char) (rest : List Char) : Prop where
  ink : Text.isBlank c = false
  noLine : Text.startsLine c rest = false
  noComment : c = '/' → rest.head? ≠ some '*'
  unquoted : c ≠ '"' ∧ c ≠ '\''

/-- A place inside a block comment where the comment goes on and nothing else begins. -/
structure Text.GoesOn (c : Char) (rest : List Char) : Prop where
  noClosing : c = '*' → rest.head? ≠ some '/'
  noLine : Text.startsLine c rest = false
  noComment : c = '/' → rest.head? ≠ some '*'

/-- The lexemes of a text that begins inside a block comment or outside. Line comments and directives
are passed if `lines` holds; block comments hold no other comment and no directive. -/
inductive Lexes (lines : Prop) : Bool → List Char → List Lexeme → Prop
  | nil : Lexes lines false [] []
  | blank {c rest lexemes} : Text.isBlank c → Lexes lines false rest lexemes →
      Lexes lines false (c :: rest) lexemes
  | line {c rest lexemes} : lines → Text.startsLine c rest →
      Lexes lines false (Text.splitLine rest).2 lexemes → Lexes lines false (c :: rest) lexemes
  | opening {rest lexemes} : Lexes lines true rest lexemes →
      Lexes lines false ('/' :: '*' :: rest) lexemes
  | lexeme {c rest after lexeme lexemes} : Lexeme.Begins c rest →
      Lexeme.read? c rest = some (lexeme, after) → Lexes lines false after lexemes →
      Lexes lines false (c :: rest) (lexeme :: lexemes)
  | closing {rest lexemes} : Lexes lines false rest lexemes →
      Lexes lines true ('*' :: '/' :: rest) lexemes
  | inside {c rest lexemes} : Text.GoesOn c rest → Lexes lines true rest lexemes →
      Lexes lines true (c :: rest) lexemes

theorem Text.startsLine_blank {c : Char} (blank : isBlank c) (rest : List Char) :
    startsLine c rest = false := by
  by_contra starts
  obtain rfl | ⟨rfl, _⟩ := startsLine_iff.1 (Bool.eq_true_of_not_eq_false starts) <;> cases blank

theorem Text.startsLine_of_next {c : Char} {rest rest' : List Char}
    (next : rest'.head? = rest.head? ∨ rest'.head?.all isBlank)
    (plain : startsLine c rest = false) : startsLine c rest' = false := by
  obtain same | blank := next
  · rw [startsLine, same]
    exact plain
  · rw [startsLine, Bool.or_eq_false_iff] at plain ⊢
    refine ⟨plain.1, ?_⟩
    cases rest' with
    | nil => simp
    | cons d rest' =>
        have other : d ≠ '/' := by
          rintro rfl
          cases blank
        simp [other]

theorem Text.head?_ne_of_next {c : Char} {rest rest' : List Char}
    (next : rest'.head? = rest.head? ∨ rest'.head?.all isBlank) (ink : isBlank c = false)
    (other : rest.head? ≠ some c) : rest'.head? ≠ some c := by
  obtain same | blank := next
  · rwa [same]
  · intro head
    rw [head, Option.all_some, ink] at blank
    cases blank

theorem Lexeme.Begins.of_next {c : Char} {rest rest' : List Char} (begins : Begins c rest)
    (next : rest'.head? = rest.head? ∨ rest'.head?.all Text.isBlank) : Begins c rest' where
  ink := begins.ink
  noLine := Text.startsLine_of_next next begins.noLine
  noComment := fun slash => Text.head?_ne_of_next next (by rfl) (begins.noComment slash)
  unquoted := begins.unquoted

theorem Text.GoesOn.of_next {c : Char} {rest rest' : List Char} (goesOn : GoesOn c rest)
    (next : rest'.head? = rest.head? ∨ rest'.head?.all isBlank) : GoesOn c rest' where
  noClosing := fun star => head?_ne_of_next next (by rfl) (goesOn.noClosing star)
  noLine := startsLine_of_next next goesOn.noLine
  noComment := fun slash => head?_ne_of_next next (by rfl) (goesOn.noComment slash)

theorem Text.goesOn_blank {c : Char} (blank : isBlank c) (rest : List Char) : GoesOn c rest where
  noClosing := fun star => by rw [star] at blank; cases blank
  noLine := startsLine_blank blank rest
  noComment := fun slash => by rw [slash] at blank; cases blank

namespace Lexes

variable {lines : Prop} {inComment : Bool} {text : List Char} {lexemes : List Lexeme}

theorem blank_iff {c : Char} (blank : Text.isBlank c) :
    Lexes lines inComment (c :: text) lexemes ↔ Lexes lines inComment text lexemes := by
  constructor
  · intro lexes
    cases lexes with
    | blank _ later | inside _ later => exact later
    | line _ starts _ =>
        rw [Text.startsLine_blank blank] at starts
        cases starts
    | opening _ | closing _ => cases blank
    | lexeme begins _ _ => cases blank.symm.trans begins.ink
  · intro later
    cases inComment with
    | false => exact .blank blank later
    | true => exact .inside (Text.goesOn_blank blank text) later

theorem blanks_iff {margin : List Char} (blanks : ∀ c ∈ margin, Text.isBlank c) :
    Lexes lines inComment (margin ++ text) lexemes ↔ Lexes lines inComment text lexemes := by
  induction margin with
  | nil => rfl
  | cons c margin ih =>
      obtain ⟨here, more⟩ := List.forall_mem_cons.1 blanks
      rw [List.cons_append, blank_iff here, ih more]

end Lexes

/-! ### Scans that are cut -/

/-- A part of a text, scanned from a place inside a comment or outside, behind which nothing of it
goes on: no lexeme, no marker. With `lines` no line comment and no directive begins in it. -/
structure Meets (lines : Prop) (inComment : Bool) (front behind : List Char) : Prop where
  ends : Lexeme.endsLexeme behind
  noLine : lines → ∀ c rest, c :: rest <:+ front → Text.startsLine c (rest ++ behind) = false
  -- A star in front of a slash would close a comment that is open there.
  noClosing : front.getLast? = some '*' → behind.head? = some '/' →
    inComment = false ∧ ¬ ['/', '*'] <:+: front

theorem Meets.suffix {lines : Prop} {inComment : Bool} {front front' behind : List Char}
    (meets : Meets lines inComment front behind) (within : front' <:+ front) :
    Meets lines inComment front' behind where
  ends := meets.ends
  noLine := fun holds c rest inside => meets.noLine holds c rest (inside.trans within)
  noClosing := fun last slash => by
    obtain ⟨start, rfl⟩ := within
    obtain ⟨outside, unopened⟩ := meets.noClosing (by rw [List.getLast?_append, last]; rfl) slash
    exact ⟨outside, fun opened => unopened (opened.trans (List.suffix_append _ _).isInfix)⟩

theorem Meets.exists_of_opening {lines : Prop} {inComment : Bool} {front behind rest : List Char}
    (meets : Meets lines inComment ('/' :: front) behind) (whole : front ++ behind = '*' :: rest) :
    ∃ front', front = '*' :: front' ∧ rest = front' ++ behind := by
  cases front with
  | nil =>
      have ends := meets.ends
      rw [List.nil_append] at whole
      rw [whole] at ends
      cases ends
  | cons d front =>
      obtain ⟨rfl, rfl⟩ := List.cons.inj whole
      exact ⟨front, rfl, rfl⟩

theorem Meets.opened {lines : Prop} {front behind : List Char}
    (meets : Meets lines false ('/' :: '*' :: front) behind) : Meets lines true front behind where
  ends := meets.ends
  noLine := (meets.suffix ⟨['/', '*'], rfl⟩).noLine
  noClosing := fun last slash => by
    have last' : ('/' :: '*' :: front).getLast? = some '*' := by
      rw [List.getLast?_cons, List.getLast?_cons, last]
      rfl
    exact absurd ⟨[], front, rfl⟩ (meets.noClosing last' slash).2

theorem Meets.exists_of_closing {lines : Prop} {front behind rest : List Char}
    (meets : Meets lines true ('*' :: front) behind) (whole : front ++ behind = '/' :: rest) :
    ∃ front', front = '/' :: front' ∧ rest = front' ++ behind := by
  cases front with
  | nil =>
      rw [List.nil_append] at whole
      cases (meets.noClosing rfl (by rw [whole]; rfl)).1
  | cons d front =>
      obtain ⟨rfl, rfl⟩ := List.cons.inj whole
      exact ⟨front, rfl, rfl⟩

theorem Meets.closed {lines : Prop} {front behind : List Char}
    (meets : Meets lines true ('*' :: '/' :: front) behind) : Meets lines false front behind where
  ends := meets.ends
  noLine := (meets.suffix ⟨['*', '/'], rfl⟩).noLine
  noClosing := fun last slash => by
    have last' : ('*' :: '/' :: front).getLast? = some '*' := by
      rw [List.getLast?_cons, List.getLast?_cons, last]
      rfl
    cases (meets.noClosing last' slash).1

namespace Lexes

variable {lines : Prop} {inComment : Bool} {lexemes : List Lexeme}

/-- A scan that is cut: behind the front it goes on in the same way whatever stands there, and it
has found the same lexemes up to there. -/
structure Splits (lines : Prop) (inComment : Bool) (front behind : List Char)
    (lexemes : List Lexeme) (inComment' : Bool) (read left : List Lexeme) : Prop where
  whole : lexemes = read ++ left
  later : Lexes lines inComment' behind left
  change : ∀ {lines' : Prop} {behind' : List Char} {left' : List Lexeme},
    behind'.head?.all Text.isBlank → Lexes lines' inComment' behind' left' →
      Lexes lines' inComment (front ++ behind') (read ++ left')

theorem next_of_append {front behind behind' : List Char} (blank : behind'.head?.all Text.isBlank) :
    (front ++ behind').head? = (front ++ behind).head? ∨
      (front ++ behind').head?.all Text.isBlank := by
  cases front with
  | nil => exact Or.inr blank
  | cons c front => exact Or.inl rfl

theorem splits {front behind : List Char} (lexes : Lexes lines inComment (front ++ behind) lexemes)
    (meets : Meets lines inComment front behind) :
    ∃ inComment' read left, Splits lines inComment front behind lexemes inComment' read left := by
  -- By length, since a lexeme takes several characters of the front at once.
  induction size : front.length using Nat.strong_induction_on
    generalizing front inComment lexemes with
  | _ size ih =>
      subst size
      cases front with
      | nil => exact ⟨inComment, [], lexemes, rfl, lexes, fun _ later => later⟩
      | cons c front =>
          have shorter : front.length < (c :: front).length := Nat.lt_succ_self _
          have within : front <:+ c :: front := List.suffix_cons c front
          rw [List.cons_append] at lexes
          generalize whole : front ++ behind = rest at lexes
          cases lexes with
          | blank blank later =>
              subst whole
              obtain ⟨_, read, left, split⟩ := ih _ shorter later (meets.suffix within) rfl
              exact ⟨_, read, left, split.whole, split.later, fun blanks more =>
                .blank blank (split.change blanks more)⟩
          | line holds starts _ =>
              rw [← whole, meets.noLine holds c front (List.suffix_refl _)] at starts
              cases starts
          | opening later =>
              obtain ⟨front, rfl, rfl⟩ := meets.exists_of_opening whole
              obtain ⟨_, read, left, split⟩ :=
                ih _ (by simp) later meets.opened rfl
              exact ⟨_, read, left, split.whole, split.later, fun blanks more =>
                .opening (split.change blanks more)⟩
          | @lexeme _ _ _ lexeme _ begins found later =>
              subst whole
              obtain ⟨noQuote, noApostrophe⟩ := begins.unquoted
              rw [Lexeme.read?_append noQuote noApostrophe meets.ends] at found
              obtain ⟨⟨_, rest⟩, here, same⟩ := Option.map_eq_some_iff.1 found
              cases same
              obtain ⟨start, cut, _⟩ := Lexeme.read?_cut here
              have suffix : rest <:+ front := ⟨start, cut.symm⟩
              obtain ⟨_, read, left, split⟩ := ih _ (Nat.lt_succ_of_le suffix.length_le) later
                (meets.suffix (suffix.trans within)) rfl
              refine ⟨_, lexeme :: read, left, by rw [split.whole]; rfl, split.later, ?_⟩
              intro _ _ _ blanks more
              have again := Lexeme.read?_append noQuote noApostrophe
                (Lexeme.endsLexeme_of_blank blanks) front
              rw [here] at again
              exact .lexeme (begins.of_next (next_of_append blanks)) again
                (split.change blanks more)
          | closing later =>
              obtain ⟨front, rfl, rfl⟩ := meets.exists_of_closing whole
              obtain ⟨_, read, left, split⟩ :=
                ih _ (by simp) later meets.closed rfl
              exact ⟨_, read, left, split.whole, split.later, fun blanks more =>
                .closing (split.change blanks more)⟩
          | inside goesOn later =>
              subst whole
              obtain ⟨_, read, left, split⟩ := ih _ shorter later (meets.suffix within) rfl
              exact ⟨_, read, left, split.whole, split.later, fun blanks more =>
                .inside (goesOn.of_next (next_of_append blanks)) (split.change blanks more)⟩

end Lexes

/-! ### Block comments of a text -/

namespace Text

/-- The block comments of a gap, each from behind its opening marker up to its end. -/
def comments : List Char → List (List Char)
  | [] => []
  | c :: rest =>
      if isBlank c then comments rest
      else if startsLine c rest then comments (splitLine rest).2
      else if c = '/' && rest.head? = some '*' then
        match _found : splitComment? rest.tail with
        | some (inside, after) => inside :: comments after
        | none => []
      else []
termination_by text => text.length
decreasing_by
  · simp
  · have whole := congrArg List.length (splitLine_append rest)
    simp only [List.length_append, List.length_cons] at *
    omega
  · have whole := congrArg List.length (eq_of_splitComment? _found)
    simp only [List.length_append, List.length_tail, List.length_cons] at *
    omega

theorem comments_blank {c : Char} (blank : isBlank c) (rest : List Char) :
    comments (c :: rest) = comments rest := by
  rw [comments, if_pos blank]

theorem comments_line {c : Char} {rest : List Char} (starts : startsLine c rest) :
    comments (c :: rest) = comments (splitLine rest).2 := by
  have ink : isBlank c = false := by
    by_contra blank
    rw [startsLine_blank (by simpa using blank)] at starts
    cases starts
  rw [comments, if_neg (by simp [ink]), if_pos starts]

theorem comments_comment {rest inside after : List Char}
    (closed : splitComment? rest = some (inside, after)) :
    comments ('/' :: '*' :: rest) = inside :: comments after := by
  rw [comments, if_neg (by decide), if_neg (by simp [startsLine]), if_pos (by simp)]
  split
  · next found =>
      cases closed.symm.trans found
      rfl
  · next none => cases closed.symm.trans none

/-- A block comment in which no other comment and no directive begins. -/
structure IsSimpleComment (comment : List Char) : Prop where
  noLine : ¬ ['/', '/'] <:+: comment
  noComment : ¬ ['/', '*'] <:+: comment
  noDirective : '#' ∉ comment

end Text

/-- The block comments between the tokens of a text. -/
def Lexed.comments (lexed : Lexed) : List (List Char) :=
  (lexed.lead :: lexed.tokens.map Token.gap).flatMap Text.comments

namespace Text

theorem comments_splitGap_line {c : Char} {rest : List Char} (starts : startsLine c rest)
    (later : comments (splitGap (splitLine rest).2).1 = comments (splitLine rest).2) :
    comments (c :: (splitLine rest).1 ++ (splitGap (splitLine rest).2).1) =
      comments (c :: rest) := by
  have within : (splitGap (splitLine rest).2).1 <+: (splitLine rest).2 :=
    ⟨_, splitGap_append _⟩
  rw [List.cons_append, comments_line (startsLine_append starts _), splitLine_cut within,
    comments_line starts, later]

theorem comments_splitGap (text : List Char) : comments (splitGap text).1 = comments text := by
  fun_induction splitGap text with
  | case1 => rfl
  | case2 c rest blank ih => rw [comments_blank blank, comments_blank blank, ih]
  | case3 rest line blank ih => exact comments_splitGap_line rfl ih
  | case4 c rest _ _ slashes line ih =>
      exact comments_splitGap_line (by simp [startsLine, slashes]) ih
  | case5 c rest _ _ _ opened inside after found ih =>
      simp only [Bool.and_eq_true, decide_eq_true_eq] at opened
      obtain ⟨rfl, head⟩ := opened
      obtain ⟨more, rfl⟩ := List.head?_eq_some_iff.1 head
      rw [List.tail_cons] at found
      rw [comments_comment found, ← ih, List.cons_append, List.cons_append,
        comments_comment (splitComment?_cut found _)]
  | case6 c rest ink hash slashes opened none =>
      rw [comments, comments, if_neg ink, if_neg (by simp [startsLine, hash, slashes]),
        if_pos opened]
      split
      · next found => cases none.symm.trans found
      · rfl
  | case7 c rest ink hash slashes opened =>
      rw [comments, comments, if_neg ink, if_neg (by simp [startsLine, hash, slashes]),
        if_neg opened]

end Text

namespace Lexes

theorem of_comment {text inside after : List Char} {lexemes : List Lexeme} {lines : Prop}
    (closed : Text.splitComment? text = some (inside, after))
    (simple : Text.IsSimpleComment inside) (later : Lexes lines false after lexemes) :
    Lexes lines true text lexemes := by
  fun_induction Text.splitComment? text generalizing inside with
  | case1 => cases closed
  | case2 rest =>
      cases closed
      exact .closing later
  | case3 c rest other ih =>
      obtain ⟨⟨inner, _⟩, found, same⟩ := Option.map_eq_some_iff.1 closed
      cases same
      have whole := Text.eq_of_splitComment? found
      have longer : inner <:+: c :: inner := (List.suffix_cons c inner).isInfix
      have next : ∀ d, rest.head? = some d → [c, d] <:+: c :: inner := by
        intro d head
        obtain _ | ⟨e, more⟩ := inner
        · cases Text.getLast?_of_splitComment? found
        · obtain rfl : e = d := by simpa [whole] using head
          exact (List.prefix_append [c, e] more).isInfix
      refine .inside ⟨fun star head => ?_, ?_, fun slash head => ?_⟩ (ih found
        ⟨fun within => simple.noLine (within.trans longer),
          fun within => simple.noComment (within.trans longer),
          fun mem => simple.noDirective (List.mem_cons_of_mem c mem)⟩)
      · obtain ⟨more, ends⟩ := List.head?_eq_some_iff.1 head
        exact other more star ends
      · by_contra starts
        obtain rfl | ⟨rfl, head⟩ :=
          Text.startsLine_iff.1 (Bool.eq_true_of_not_eq_false starts)
        · exact simple.noDirective List.mem_cons_self
        · exact simple.noLine (next _ head)
      · rw [slash] at next
        exact simple.noComment (slash ▸ next _ head)

theorem of_gap {text : List Char} {lexemes : List Lexeme}
    (simple : ∀ comment ∈ Text.comments text, Text.IsSimpleComment comment)
    (later : Lexes True false (Text.splitGap text).2 lexemes) : Lexes True false text lexemes := by
  fun_induction Text.splitGap text with
  | case1 => exact later
  | case2 c rest blank ih =>
      rw [Text.comments_blank blank] at simple
      exact .blank blank (ih simple later)
  | case3 rest line blank ih =>
      have starts : Text.startsLine '#' rest := rfl
      rw [Text.comments_line starts] at simple
      exact .line trivial starts (ih simple later)
  | case4 c rest _ _ slashes line ih =>
      have starts : Text.startsLine c rest := by simp [Text.startsLine, slashes]
      rw [Text.comments_line starts] at simple
      exact .line trivial starts (ih simple later)
  | case5 c rest _ _ _ opened inside after found ih =>
      simp only [Bool.and_eq_true, decide_eq_true_eq] at opened
      obtain ⟨rfl, head⟩ := opened
      obtain ⟨more, rfl⟩ := List.head?_eq_some_iff.1 head
      rw [List.tail_cons] at found
      rw [Text.comments_comment found] at simple
      obtain ⟨here, there⟩ := List.forall_mem_cons.1 simple
      exact .opening (of_comment found here (ih there later))
  | case6 => exact later
  | case7 => exact later

theorem of_readFrom {start : Nat} {text : List Char} {tokens : List Token}
    (found : Token.readFrom start text = .ok tokens)
    (gap : Text.splitGap text = ([], text))
    (unquoted : ∀ c ∈ text, c ≠ '"' ∧ c ≠ '\'')
    (simple : ∀ comment ∈ (tokens.map Token.gap).flatMap Text.comments,
      Text.IsSimpleComment comment) :
    Lexes True false text (tokens.map Token.lexeme) := by
  fun_induction Token.readFrom start text generalizing tokens with
  | case1 =>
      cases found
      exact .nil
  | case2 => cases found
  | case3 => cases found
  | case4 start c rest plain lexeme after read =>
      rename_i ih
      obtain ⟨later, further, rfl⟩ := Except.map_ok_iff.1 found
      rw [List.map_cons, List.flatMap_cons] at simple
      obtain ⟨here, there⟩ := List.forall_mem_append.1 simple
      rw [Text.comments_splitGap] at here
      obtain ⟨front, whole, _⟩ := Lexeme.read?_cut read
      have within : ∀ d ∈ (Text.splitGap after).2, d ≠ '"' ∧ d ≠ '\'' := by
        intro d mem
        refine unquoted d (List.mem_cons_of_mem c ?_)
        rw [whole, ← Text.splitGap_append after]
        exact List.mem_append_right _ (List.mem_append_right _ mem)
      refine .lexeme ⟨?_, ?_, ?_, unquoted c List.mem_cons_self⟩ read
        (of_gap here (ih further (Text.splitGap_splitGap after) within there))
      · by_contra blank
        rw [Text.splitGap_blank (by simpa using blank)] at gap
        cases congrArg Prod.fst gap
      · by_contra starts
        rw [Text.splitGap_line (by simpa using starts)] at gap
        cases congrArg Prod.fst gap
      · rintro rfl head
        obtain ⟨more, rfl⟩ := List.head?_eq_some_iff.1 head
        exact plain rfl

/-- The tokens of a text without literals and with simple comments are what a scan finds. -/
theorem of_ofText {text : List Char} {lexed : Lexed} (found : Lexed.ofText text = .ok lexed)
    (unquoted : ∀ c ∈ text, c ≠ '"' ∧ c ≠ '\'')
    (simple : ∀ comment ∈ lexed.comments, Text.IsSimpleComment comment) :
    Lexes True false text (lexed.tokens.map Token.lexeme) := by
  obtain ⟨tokens, read, rfl⟩ := Except.map_ok_iff.1 found
  rw [Lexed.comments, List.flatMap_cons] at simple
  obtain ⟨here, there⟩ := List.forall_mem_append.1 simple
  rw [Text.comments_splitGap] at here
  refine of_gap here (of_readFrom read (Text.splitGap_splitGap text) (fun c mem => ?_) there)
  refine unquoted c ?_
  rw [← Text.splitGap_append text]
  exact List.mem_append_right _ mem

def IsReadAs (lexemes : List Lexeme) (text : List Char) : Prop :=
  ∀ start, ∃ tokens, Token.readFrom start (Text.splitGap text).2 = .ok tokens ∧
    tokens.map Token.lexeme = lexemes

theorem isReadAs_lexeme {c : Char} {rest after : List Char} {lexeme : Lexeme}
    {lexemes : List Lexeme} (begins : Lexeme.Begins c rest)
    (found : Lexeme.read? c rest = some (lexeme, after)) (later : IsReadAs lexemes after) :
    IsReadAs (lexeme :: lexemes) (c :: rest) := by
  have apart : c = '/' → rest.head? ≠ some '/' := by
    intro slash head
    cases begins.noLine.symm.trans (Text.startsLine_iff.2 (Or.inr ⟨slash, head⟩))
  have hash : c ≠ '#' := by
    rintro rfl
    cases begins.noLine
  have plain : Text.startsWith Delimiter.comment.opening (c :: rest) = false :=
    congrArg Option.isSome (Text.after?_pair_eq_none.2 begins.noComment)
  intro start
  rw [Text.splitGap_other begins.ink hash fun slash => ⟨apart slash, begins.noComment slash⟩]
  obtain ⟨tokens, read, same⟩ := later
    (start + Text.size lexeme.spelling + Text.size (Text.splitGap after).1)
  exact ⟨_, Token.readFrom_cons plain found rfl read, by rw [List.map_cons, same]⟩

theorem isReadAs {lines : Prop} {inComment : Bool} {text : List Char} {lexemes : List Lexeme}
    (lexes : Lexes lines inComment text lexemes) :
    if inComment then ∃ inside after, Text.splitComment? text = some (inside, after) ∧
      IsReadAs lexemes after else IsReadAs lexemes text := by
  induction lexes with
  | nil =>
      intro start
      exact ⟨[], by rw [Text.splitGap_nil, Token.readFrom], rfl⟩
  | blank blank _ ih =>
      intro start
      rw [Text.splitGap_blank blank]
      exact ih start
  | line _ starts _ ih =>
      intro start
      rw [Text.splitGap_line starts]
      exact ih start
  | opening _ ih =>
      intro start
      obtain ⟨inside, after, closed, later⟩ := ih
      rw [Text.splitGap_comment closed]
      exact later start
  | lexeme begins found _ ih => exact isReadAs_lexeme begins found ih
  | closing _ ih => exact ⟨['*', '/'], _, by rw [Text.splitComment?], ih⟩
  | @inside c rest _ goesOn _ ih =>
      obtain ⟨inside, after, closed, later⟩ := ih
      refine ⟨c :: inside, after, ?_, later⟩
      rw [Text.splitComment?, closed]
      · rfl
      · rintro more star rfl
        exact goesOn.noClosing star rfl

/-- What a scan finds are the tokens of the text. -/
theorem ofText {lines : Prop} {text : List Char} {lexemes : List Lexeme}
    (lexes : Lexes lines false text lexemes) :
    ∃ lexed, Lexed.ofText text = .ok lexed ∧ lexed.tokens.map Token.lexeme = lexemes := by
  obtain ⟨tokens, read, same⟩ := lexes.isReadAs (Text.size (Text.splitGap text).1)
  exact ⟨⟨_, tokens⟩, Except.map_ok_iff.2 ⟨tokens, read, rfl⟩, same⟩

end Lexes

end PxdStub
