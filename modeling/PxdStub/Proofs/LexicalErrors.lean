import PxdStub.Proofs.Spans

/-!
Where the lexer fails. A text cannot be read just when it ends inside a literal or a block comment.
The error gives the byte where that literal or comment begins: the text in front of this byte can be
read, and nothing behind it closes what begins there.
-/

namespace PxdStub

namespace Text

/-! ### What a text ends in -/

/-- What a text ends in. A slash in code may begin a comment, a star in a block comment may begin
its end, and a backslash in a literal takes the next character with it. Directives are lines too. -/
inductive Standing where
  | code
  | slash
  | line
  | comment
  | star
  | literal (quote : Char)
  | escape (quote : Char)
  deriving DecidableEq, Repr

namespace Standing

def inCode (c : Char) : Standing :=
  if c = '/' then slash
  else if c = '#' then line
  else if c = '"' ∨ c = '\'' then literal c
  else code

def next : Standing → Char → Standing
  | code, c => inCode c
  | slash, c => if c = '/' then line else if c = '*' then comment else inCode c
  | line, c => if c = '\n' then code else line
  | comment, c => if c = '*' then star else comment
  | star, c => if c = '/' then code else if c = '*' then star else comment
  | literal quote, c => if c = quote then code else if c = '\\' then escape quote else literal quote
  | escape quote, _ => literal quote

def after (here : Standing) (text : List Char) : Standing :=
  text.foldl next here

/-- Inside a literal or a block comment. -/
def isOpen : Standing → Bool
  | comment | star | literal _ | escape _ => true
  | code | slash | line => false

def isCode : Standing → Bool
  | code | slash => true
  | line | comment | star | literal _ | escape _ => false

end Standing

def standing (text : List Char) : Standing :=
  Standing.code.after text

/-- The characters of a text, where a backslash and the character behind it are one unit. -/
def units : List Char → List (List Char)
  | [] => []
  | '\\' :: c :: rest => ['\\', c] :: units rest
  | c :: rest => [c] :: units rest

@[simp] theorem units_pair (c : Char) (rest : List Char) :
    units ('\\' :: c :: rest) = ['\\', c] :: units rest := rfl

theorem units_single {c : Char} {rest : List Char}
    (other : ∀ d rest', c = '\\' → rest = d :: rest' → False) :
    units (c :: rest) = [c] :: units rest :=
  units.eq_3 c rest other

namespace Standing

section

variable (c quote : Char)

@[simp] theorem next_code : code.next c = inCode c := rfl

@[simp] theorem next_slash : slash.next c =
    if c = '/' then line else if c = '*' then comment else inCode c := rfl

@[simp] theorem next_line : line.next c = if c = '\n' then code else line := rfl

@[simp] theorem next_comment : comment.next c = if c = '*' then star else comment := rfl

@[simp] theorem next_star : star.next c =
    if c = '/' then code else if c = '*' then star else comment := rfl

@[simp] theorem next_literal : (literal quote).next c =
    if c = quote then code else if c = '\\' then escape quote else literal quote := rfl

@[simp] theorem next_escape : (escape quote).next c = literal quote := rfl

end

@[simp] theorem after_nil (here : Standing) : here.after [] = here := rfl

@[simp] theorem after_cons (here : Standing) (c : Char) (text : List Char) :
    here.after (c :: text) = (here.next c).after text := rfl

@[simp] theorem after_append (here : Standing) (front back : List Char) :
    here.after (front ++ back) = (here.after front).after back :=
  List.foldl_append

theorem after_line {text : List Char} (within : '\n' ∉ text) : line.after text = line := by
  induction text with
  | nil => rfl
  | cons c text ih =>
      simp only [List.mem_cons, not_or] at within
      rw [after_cons, next_line, if_neg (Ne.symm within.1)]
      exact ih within.2

theorem after_comment {text : List Char} (unclosed : ¬ ['*', '/'] <:+: text) :
    comment.after text = if text.getLast? = some '*' then star else comment := by
  -- the last character decides, so the induction takes characters from the end
  induction text using List.reverseRecOn with
  | nil => rfl
  | append_singleton front c ih =>
      have before := ih fun within => unclosed (within.trans (List.prefix_append _ _).isInfix)
      rw [after_append, before, List.getLast?_concat]
      by_cases again : c = '*'
      · split <;> simp [again]
      · by_cases behind : front.getLast? = some '*'
        · have other : c ≠ '/' := by
            intro slash
            obtain ⟨more, rfl⟩ := List.getLast?_eq_some_iff.1 behind
            exact unclosed ⟨more, [], by simp [slash]⟩
          simp [behind, again, other]
        · simp [behind, again]

theorem after_literal {quote : Char} (plain : quote ≠ '\\') {text : List Char}
    (unclosed : [quote] ∉ units text) :
    (literal quote).after text = literal quote ∨ (literal quote).after text = escape quote := by
  fun_induction units text with
  | case1 => exact Or.inl rfl
  | case2 c rest ih =>
      simp only [List.mem_cons, not_or] at unclosed
      simpa [Ne.symm plain] using ih unclosed.2
  | case3 c rest other ih =>
      simp only [List.mem_cons, List.cons.injEq, and_true, not_or] at unclosed
      rw [after_cons, next_literal, if_neg (Ne.symm unclosed.1)]
      by_cases backslash : c = '\\'
      · obtain _ | ⟨d, rest⟩ := rest
        · simp [backslash]
        · exact (other d rest backslash rfl).elim
      · rw [if_neg backslash]
        exact ih unclosed.2

theorem after_quoted? {quote : Char} (plain : quote ≠ '\\') {text inside rest : List Char}
    (found : Lexeme.quoted? quote text = some (inside, rest)) :
    (literal quote).after (inside ++ [quote]) = code := by
  fun_induction Lexeme.quoted? quote text generalizing inside with
  | case1 => cases found
  | case2 c text ih =>
      obtain ⟨⟨inner, _⟩, later, same⟩ := Option.map_eq_some_iff.1 found
      cases same
      simpa [Ne.symm plain] using ih later
  | case3 text other =>
      cases found
      simp
  | case4 c text other unquoted ih =>
      obtain ⟨⟨inner, _⟩, later, same⟩ := Option.map_eq_some_iff.1 found
      cases same
      have whole := (Lexeme.quoted?_cut plain later).1
      have single : c ≠ '\\' := by
        intro backslash
        cases inner with
        | nil => exact other _ _ backslash whole
        | cons d inner => exact other _ _ backslash whole
      simpa [unquoted, single] using ih later

end Standing

theorem not_mem_units_of_quoted? {quote : Char} {text : List Char}
    (none : Lexeme.quoted? quote text = none) : [quote] ∉ units text := by
  fun_induction Lexeme.quoted? quote text with
  | case1 => simp [units]
  | case2 c rest ih =>
      rw [Option.map_eq_none_iff] at none
      simpa using ih none
  | case3 => cases none
  | case4 c rest other unquoted ih =>
      rw [Option.map_eq_none_iff] at none
      rw [units_single other]
      simpa [Ne.symm unquoted] using ih none

theorem not_infix_of_splitComment? {text : List Char} (none : splitComment? text = none) :
    ¬ ['*', '/'] <:+: text := by
  fun_induction splitComment? text with
  | case1 => simp
  | case2 => cases none
  | case3 c rest other ih =>
      rw [Option.map_eq_none_iff] at none
      intro within
      obtain ⟨more, start⟩ | later := List.infix_cons_iff.1 within
      · obtain ⟨star, slash⟩ := List.cons.inj start
        exact other more star.symm slash.symm
      · exact ih none later

/-! ### Reading on behind a token or a gap -/

namespace Standing

theorem inCode_of_isBlank {c : Char} (blank : isBlank c) : inCode c = code := by
  have ordinary : c ≠ '/' ∧ c ≠ '#' ∧ c ≠ '"' ∧ c ≠ '\'' := by
    refine ⟨?_, ?_, ?_, ?_⟩ <;> rintro rfl <;> cases blank
  simp [inCode, ordinary]

theorem inCode_of_isNumberPart {c : Char} (part : Lexeme.isNumberPart c) : inCode c = code := by
  have ordinary : c ≠ '/' ∧ c ≠ '#' ∧ c ≠ '"' ∧ c ≠ '\'' := by
    refine ⟨?_, ?_, ?_, ?_⟩ <;> rintro rfl <;> cases part
  simp [inCode, ordinary]

theorem after_numberParts {text : List Char} (parts : ∀ c ∈ text, Lexeme.isNumberPart c) :
    code.after text = code := by
  induction text with
  | nil => rfl
  | cons c text ih =>
      simp only [List.mem_cons, forall_eq_or_imp] at parts
      rw [after_cons, next_code, inCode_of_isNumberPart parts.1]
      exact ih parts.2

theorem after_literalText {quote : Char} (isQuote : quote = '"' ∨ quote = '\'')
    {text inside rest : List Char} (found : Lexeme.quoted? quote text = some (inside, rest)) :
    code.after (quote :: inside ++ [quote]) = code := by
  have opens : code.next quote = literal quote ∧ quote ≠ '\\' := by
    obtain rfl | rfl := isQuote <;> decide
  rw [List.cons_append, after_cons, opens.1]
  exact after_quoted? opens.2 found

/-- A lexeme ends in code. Only a slash may still become something else. -/
theorem after_spelling {c : Char} {rest after : List Char} {lexeme : Lexeme} (hash : c ≠ '#')
    (read : Lexeme.read? c rest = some (lexeme, after)) :
    code.after lexeme.spelling = code ∨ lexeme.spelling = ['/'] ∧ c = '/' ∧ after = rest := by
  by_cases quote : c = '"'
  · rw [Lexeme.read?.eq_def, if_pos quote] at read
    obtain ⟨⟨inside, _⟩, found, same⟩ := Option.map_eq_some_iff.1 read
    cases same
    subst quote
    have closed := after_literalText (Or.inl rfl) found
    exact Or.inl (by simpa [Lexeme.spelling] using closed)
  by_cases apostrophe : c = '\''
  · rw [Lexeme.read?.eq_def, if_neg quote, if_pos apostrophe] at read
    obtain ⟨⟨inside, _⟩, found, same⟩ := Option.map_eq_some_iff.1 read
    cases same
    subst apostrophe
    have closed := after_literalText (Or.inr rfl) found
    exact Or.inl (by simpa [Lexeme.spelling] using closed)
  rw [Lexeme.read?_of_unquoted quote apostrophe] at read
  split at read
  · next digit =>
      cases read
      refine Or.inl (after_numberParts fun d mem => ?_)
      simp only [Lexeme.spelling, String.toList_ofList, List.mem_cons] at mem
      obtain rfl | mem := mem
      · simp [Lexeme.isNumberPart, Char.isAlphanum, digit]
      · exact List.mem_takeWhile_imp mem
  · split at read
    · next word =>
        cases read
        refine Or.inl (after_numberParts fun d mem => ?_)
        simp only [Lexeme.spelling_ofWord, String.toList_ofList, List.mem_cons] at mem
        apply Lexeme.isNumberPart_of_isWordPart
        obtain rfl | mem := mem
        · simp only [Lexeme.isWordStart, Bool.or_eq_true] at word
          simp only [Lexeme.isWordPart, Char.isAlphanum, Bool.or_eq_true]
          exact word.imp_left Or.inl
        · exact List.mem_takeWhile_imp mem
    · have mark := Option.some.inj read
      revert mark
      fun_cases Lexeme.readMark c rest with
      | case1 | case2 =>
          rintro ⟨⟩
          exact Or.inl rfl
      | case3 =>
          rintro ⟨⟩
          rw [Lexeme.spelling_ofChar]
          by_cases slash : c = '/'
          · exact Or.inr ⟨by rw [slash], slash, rfl⟩
          · exact Or.inl (by simp [inCode, slash, hash, quote, apostrophe])

theorem after_isTrivia {last : Prop} {gap : List Char} (trivia : IsTrivia last gap) :
    code.after gap = code ∨ last ∧ code.after gap = line := by
  have begins : ∀ opening, opening = ['#'] ∨ opening = ['/', '/'] → code.after opening = line := by
    rintro opening (rfl | rfl) <;> rfl
  induction trivia with
  | nil => exact Or.inl rfl
  | blank blank _ ih =>
      rw [after_cons, next_code, inCode_of_isBlank blank]
      exact ih
  | @comment inside rest unclosed _ ih =>
      have closed : code.after (['/', '*'] ++ inside ++ ['*', '/']) = code := by
        change comment.after (inside ++ ['*', '/']) = code
        rw [after_append, after_comment unclosed]
        split <;> rfl
      rw [after_append, closed]
      exact ih
  | @line opening content rest starts within _ ih =>
      rw [after_append, after_append, begins _ starts, after_line within]
      exact ih
  | lastLine last starts within =>
      rw [after_append, begins _ starts, after_line within]
      exact Or.inr ⟨last, rfl⟩

/-- Where the lexer may stand when it goes on with a text. -/
inductive Awaits : Standing → List Char → Prop
  | code {text} : Awaits .code text
  | slash {text} : text.head? ≠ some '/' → text.head? ≠ some '*' → Awaits .slash text
  | line : Awaits .line []

variable {here : Standing} {c : Char} {rest : List Char}

theorem next_of_awaits (awaits : here.Awaits (c :: rest)) : here.next c = code.next c := by
  cases awaits with
  | code => rfl
  | slash noSlash noStar =>
      simp only [List.head?_cons, ne_eq, Option.some.injEq] at noSlash noStar
      simp [noSlash, noStar]

theorem isCode_of_awaits (awaits : here.Awaits (c :: rest)) : here.isCode := by
  cases awaits <;> rfl

theorem not_isOpen_of_awaits (awaits : here.Awaits []) : ¬ here.isOpen := by
  cases awaits <;> simp [isOpen]

theorem awaits_gap {text : List Char} (awaits : here.Awaits text) :
    (here.after (splitGap text).1).Awaits (splitGap text).2 := by
  have trivia := after_isTrivia (isTrivia_splitGap text)
  have whole := splitGap_append text
  cases skipped : (splitGap text).1 with
  | nil =>
      rw [skipped, List.nil_append] at whole
      rw [whole]
      exact awaits
  | cons c gap =>
      rw [skipped] at trivia whole
      rw [← whole, List.cons_append] at awaits
      rw [after_cons, next_of_awaits awaits, ← after_cons]
      obtain inside | ⟨ended, inside⟩ := trivia
      · rw [inside]
        exact .code
      · rw [inside, ended]
        exact .line

theorem awaits_lexeme {after : List Char} {lexeme : Lexeme} (awaits : here.Awaits (c :: rest))
    (begins : splitGap (c :: rest) = ([], c :: rest))
    (plain : startsWith Delimiter.comment.opening (c :: rest) = false)
    (read : Lexeme.read? c rest = some (lexeme, after)) :
    (here.after lexeme.spelling).Awaits after := by
  have noLine : ¬ startsLine c rest := by
    intro starts
    rw [splitGap_line starts] at begins
    cases begins
  rw [startsLine_iff, not_or] at noLine
  obtain ⟨_, _, spelling, _⟩ := Lexeme.read?_cut read
  have same : here.after lexeme.spelling = code.after lexeme.spelling := by
    rw [spelling, after_cons, next_of_awaits awaits, ← after_cons]
  rw [same]
  obtain inside | ⟨single, rfl, rfl⟩ := after_spelling noLine.1 read
  · rw [inside]
    exact .code
  · rw [single]
    refine .slash (fun slash => noLine.2 ⟨rfl, slash⟩) fun star => ?_
    obtain ⟨more, rfl⟩ := List.head?_eq_some_iff.1 star
    cases plain

/-- From one token to the next. -/
theorem awaits_token {after : List Char} {lexeme : Lexeme} (awaits : here.Awaits (c :: rest))
    (begins : splitGap (c :: rest) = ([], c :: rest))
    (plain : startsWith Delimiter.comment.opening (c :: rest) = false)
    (read : Lexeme.read? c rest = some (lexeme, after)) :
    (here.after (lexeme.spelling ++ (splitGap after).1)).Awaits (splitGap after).2 := by
  rw [after_append]
  exact awaits_gap (awaits_lexeme awaits begins plain read)

end Standing

end Text

/-! ### Errors of the lexer -/

/-- A text that begins with a literal or a block comment that it does not close, and the error for
the byte where it begins. -/
inductive Unclosed : List Char → (Nat → ParseError) → Prop
  | literal {quote rest} : quote = '"' ∨ quote = '\'' → [quote] ∉ Text.units rest →
      Unclosed (quote :: rest) .unclosedLiteral
  | comment {rest} : ¬ ['*', '/'] <:+: rest → Unclosed ('/' :: '*' :: rest) .unclosedComment

namespace Unclosed

open Text

theorem isOpen {text : List Char} {error : Nat → ParseError} (unclosed : Unclosed text error)
    {here : Standing} (awaits : here.Awaits text) :
    here.isCode ∧ (here.after text).isOpen := by
  cases unclosed with
  | @literal quote rest isQuote never =>
      have opens : Standing.code.next quote = .literal quote ∧ quote ≠ '\\' := by
        obtain rfl | rfl := isQuote <;> decide
      refine ⟨Standing.isCode_of_awaits awaits, ?_⟩
      rw [Standing.after_cons, Standing.next_of_awaits awaits, opens.1]
      obtain inside | inside := Standing.after_literal opens.2 never <;> rw [inside] <;> rfl
  | @comment rest never =>
      refine ⟨Standing.isCode_of_awaits awaits, ?_⟩
      rw [Standing.after_cons, Standing.next_of_awaits awaits]
      change (Standing.comment.after rest).isOpen
      rw [Standing.after_comment never]
      split <;> rfl

theorem of_startsWith {text : List Char} (begins : splitGap text = ([], text))
    (starts : startsWith Delimiter.comment.opening text) : Unclosed text .unclosedComment := by
  obtain ⟨rest, found⟩ := Option.isSome_iff_exists.1 starts
  obtain rfl := after?_eq_some_iff.1 found
  refine .comment (not_infix_of_splitComment? ?_)
  rw [Option.eq_none_iff_forall_ne_some]
  intro ⟨inside, after⟩ closed
  have gap := begins.symm.trans (splitGap_comment closed)
  cases congrArg Prod.fst gap

theorem of_read? {c : Char} {rest : List Char} (none : Lexeme.read? c rest = none) :
    Unclosed (c :: rest) .unclosedLiteral := by
  have isQuote : c = '"' ∨ c = '\'' := by
    by_contra other
    rw [not_or] at other
    rw [Lexeme.read?_of_unquoted other.1 other.2] at none
    split at none
    · cases none
    · split at none <;> cases none
  refine .literal isQuote (not_mem_units_of_quoted? ?_)
  obtain rfl | rfl := isQuote
  · simpa [Lexeme.read?] using none
  · simpa [Lexeme.read?] using none

end Unclosed

namespace Token

open Text

variable {start : Nat} {text : List Char} {here : Standing}

theorem awaits_of_readFrom {tokens : List Token} (found : readFrom start text = .ok tokens)
    (begins : splitGap text = ([], text)) (awaits : here.Awaits text) :
    (here.after text).Awaits [] := by
  fun_induction readFrom start text generalizing here tokens with
  | case1 => exact awaits
  | case2 => cases found
  | case3 => cases found
  | case4 start c rest plain lexeme after read _ =>
      rename_i ih
      obtain ⟨later, further, same⟩ := Except.map_ok_iff.1 found
      have token := Standing.awaits_token awaits begins (by simpa using plain) read
      have behind := ih further (splitGap_splitGap after) token
      obtain ⟨front, rfl, spelling, _⟩ := Lexeme.read?_cut read
      rw [← Standing.after_append, List.append_assoc, splitGap_append, spelling] at behind
      exact behind

/-- Behind the tokens that are read before an error stands what is not closed. -/
theorem unclosed_of_readFrom {error : ParseError} (failed : readFrom start text = .error error)
    (begins : splitGap text = ([], text)) (awaits : here.Awaits text) :
    ∃ front behind defect, text = front ++ behind ∧ Unclosed behind defect ∧
      error = defect (start + size front) ∧ (∃ tokens, readFrom start front = .ok tokens) ∧
      (front ≠ [] → startsWith Delimiter.comment.opening text = false) ∧
      (here.after front).Awaits behind := by
  fun_induction readFrom start text generalizing here with
  | case1 => cases failed
  | case2 start c rest starts =>
      cases failed
      have unclosed := Unclosed.of_startsWith begins starts
      exact ⟨[], _, _, rfl, unclosed, rfl, ⟨[], by rw [readFrom]⟩, by simp, awaits⟩
  | case3 start c rest _ none =>
      cases failed
      have unclosed := Unclosed.of_read? none
      exact ⟨[], _, _, rfl, unclosed, rfl, ⟨[], by rw [readFrom]⟩, by simp, awaits⟩
  | case4 start c rest starts lexeme after read _ =>
      rename_i ih
      have plain : startsWith Delimiter.comment.opening (c :: rest) = false := by simpa using starts
      have token := Standing.awaits_token awaits begins plain read
      obtain ⟨front, behind, defect, split, unclosed, offset, ⟨tokens, found⟩, closed, later⟩ :=
        ih (Except.map_error_iff.1 failed) (splitGap_splitGap after) token
      have within : front <+: (splitGap after).2 := ⟨behind, split.symm⟩
      have gap := splitGap_front closed within
      have whole : (splitGap after).1 ++ front ++ behind = after := by
        rw [List.append_assoc, ← split, splitGap_append]
      obtain ⟨inside, rfl, spelling, reads⟩ := Lexeme.read?_cut read
      have again := reads ((splitGap after).1 ++ front) ⟨behind, whole⟩
      have source : c :: (inside ++ after) =
          c :: (inside ++ ((splitGap after).1 ++ front)) ++ behind := by
        simp only [List.cons_append, List.append_assoc, List.cons.injEq, true_and,
          List.append_cancel_left_eq]
        rw [← List.append_assoc, whole]
      have plain' : startsWith Delimiter.comment.opening
          (c :: (inside ++ ((splitGap after).1 ++ front))) = false := by
        by_contra opens
        have opened := startsWith_of_isPrefix (by simpa using opens) ⟨behind, source.symm⟩
        rw [opened] at plain
        cases plain
      have standing : here.after (c :: (inside ++ ((splitGap after).1 ++ front))) =
          (here.after (lexeme.spelling ++ (splitGap after).1)).after front := by
        simp [spelling]
      have place : start + size (c :: (inside ++ ((splitGap after).1 ++ front))) =
          start + size lexeme.spelling + size (splitGap after).1 + size front := by
        simp only [spelling, size_cons, size_append]
        omega
      refine ⟨_, behind, defect, source, unclosed, ?_, ⟨_, readFrom_cons plain' again gap found⟩,
        fun _ => plain, ?_⟩
      · rw [place]
        exact offset
      · rw [standing]
        exact later

end Token

namespace Lexed

open Text

theorem standing_of_ofText {text : List Char} {lexed : Lexed} (found : ofText text = .ok lexed) :
    ¬ (standing text).isOpen := by
  obtain ⟨tokens, read, _⟩ := Except.map_ok_iff.1 found
  have lead : (Standing.code.after (splitGap text).1).Awaits (splitGap text).2 :=
    Standing.awaits_gap .code
  have ended := Token.awaits_of_readFrom read (splitGap_splitGap text) lead
  rw [← Standing.after_append, splitGap_append] at ended
  exact Standing.not_isOpen_of_awaits ended

theorem unclosed_of_ofText {text : List Char} {error : ParseError}
    (failed : ofText text = .error error) :
    ∃ front behind defect, text = front ++ behind ∧ Unclosed behind defect ∧
      error = defect (size front) ∧ (∃ lexed, ofText front = .ok lexed) ∧
      (standing front).Awaits behind := by
  have lead : (Standing.code.after (splitGap text).1).Awaits (splitGap text).2 :=
    Standing.awaits_gap .code
  obtain ⟨front, behind, defect, split, unclosed, offset, ⟨tokens, found⟩, closed, later⟩ :=
    Token.unclosed_of_readFrom (Except.map_error_iff.1 failed) (splitGap_splitGap text) lead
  have gap := splitGap_front closed ⟨behind, split.symm⟩
  refine ⟨(splitGap text).1 ++ front, behind, defect, ?_, unclosed, ?_, ?_, ?_⟩
  · rw [List.append_assoc, ← split, splitGap_append]
  · rw [size_append]
    exact offset
  · rw [ofText, gap]
    exact ⟨_, Except.map_ok_iff.2 ⟨tokens, found, rfl⟩⟩
  · rw [standing, Standing.after_append]
    exact later

/-- A text cannot be read just when it ends in a literal or a block comment, and then the error is
for the byte where that begins: what stands in front of it can be read, and nothing closes it. -/
theorem ofText_error (text : List Char) :
    ((∃ error, ofText text = .error error) ↔ (standing text).isOpen) ∧
      ∀ error, ofText text = .error error → ∃ front behind defect, text = front ++ behind ∧
        Unclosed behind defect ∧ error = defect (size front) ∧
        (∃ lexed, ofText front = .ok lexed) ∧ (standing front).isCode := by
  have culprit : ∀ error, ofText text = .error error → (standing text).isOpen ∧
      ∃ front behind defect, text = front ++ behind ∧ Unclosed behind defect ∧
        error = defect (size front) ∧ (∃ lexed, ofText front = .ok lexed) ∧
        (standing front).isCode := by
    intro error failed
    obtain ⟨front, behind, defect, rfl, unclosed, offset, found, awaits⟩ :=
      unclosed_of_ofText failed
    obtain ⟨inCode, opened⟩ := unclosed.isOpen awaits
    refine ⟨?_, front, behind, defect, rfl, unclosed, offset, found, inCode⟩
    rw [standing, Standing.after_append]
    exact opened
  refine ⟨⟨?_, ?_⟩, fun error failed => (culprit error failed).2⟩
  · intro ⟨error, failed⟩
    exact (culprit error failed).1
  · intro opened
    cases found : ofText text with
    | error error => exact ⟨error, rfl⟩
    | ok lexed => exact (standing_of_ofText found opened).elim

example : ofText "\u00e9 /* ' */ \"\\\"\" 'b\\'".toList = .error (.unclosedLiteral 16) := by cbv

end Lexed

end PxdStub
