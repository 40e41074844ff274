import PxdStub.Proofs.Relexing

/-!
Tokens tile their text. The bytes that a token covers are its spelling, tokens stand one behind the
other without an overlap, and nothing but blanks, comments and directives lies between them.
-/

namespace PxdStub

/-! ### Slices -/

namespace Text

def splitBytes? : Nat → List Char → Option (List Char × List Char)
  | 0, text => some ([], text)
  | _ + 1, [] => none
  | count + 1, c :: rest =>
      if c.utf8Size ≤ count + 1 then
        (splitBytes? (count + 1 - c.utf8Size) rest).map fun (front, back) => (c :: front, back)
      else none

/-- The text between two bytes; `none` unless both lie on character boundaries, in this order. -/
def slice? (start stop : Nat) (text : List Char) : Option (List Char) :=
  if start ≤ stop then do
    let (_, behind) ← splitBytes? start text
    let (part, _) ← splitBytes? (stop - start) behind
    return part
  else none

theorem splitBytes?_append (front back : List Char) :
    splitBytes? (size front) (front ++ back) = some (front, back) := by
  induction front with
  | nil => rw [size_nil, splitBytes?, List.nil_append]
  | cons c front ih =>
      have positive := c.utf8Size_pos
      obtain ⟨count, whole⟩ : ∃ count, size (c :: front) = count + 1 :=
        ⟨size (c :: front) - 1, by rw [size_cons]; omega⟩
      have left : count + 1 - c.utf8Size = size front := by
        rw [← whole, size_cons]
        omega
      have enough : c.utf8Size ≤ count + 1 := by
        rw [← whole, size_cons]
        omega
      rw [whole, List.cons_append, splitBytes?, left, ih, if_pos enough]
      rfl

theorem slice?_append (front part back : List Char) :
    slice? (size front) (size front + size part) (front ++ (part ++ back)) = some part := by
  have length : size front + size part - size front = size part := by omega
  rw [slice?, if_pos (Nat.le_add_right _ _), splitBytes?_append, length]
  change (splitBytes? (size part) (part ++ back) >>= fun found => some found.1) = some part
  rw [splitBytes?_append]
  rfl

/-! ### What separates tokens -/

/-- Blanks, closed block comments, and line comments and directives with the ends of their lines.
With `last` the text ends behind them, so the last line needs no end. -/
inductive IsTrivia (last : Prop) : List Char → Prop
  | nil : IsTrivia last []
  | blank {c rest} : isBlank c → IsTrivia last rest → IsTrivia last (c :: rest)
  | comment {inside rest} : ¬ ['*', '/'] <:+: inside → IsTrivia last rest →
      IsTrivia last (['/', '*'] ++ inside ++ ['*', '/'] ++ rest)
  | line {opening content rest} : opening = ['#'] ∨ opening = ['/', '/'] → '\n' ∉ content →
      IsTrivia last rest → IsTrivia last (opening ++ content ++ '\n' :: rest)
  | lastLine {opening content} : last → opening = ['#'] ∨ opening = ['/', '/'] → '\n' ∉ content →
      IsTrivia last (opening ++ content)

theorem IsTrivia.mono {last last' : Prop} {text : List Char} (trivia : IsTrivia last text)
    (weaker : last → last') : IsTrivia last' text := by
  induction trivia with
  | nil => exact .nil
  | blank blank _ ih => exact .blank blank ih
  | comment first _ ih => exact .comment first ih
  | line opening content _ ih => exact .line opening content ih
  | lastLine last opening content => exact .lastLine (weaker last) opening content

theorem splitLine_cases (text : List Char) :
    (∃ content, '\n' ∉ content ∧ (splitLine text).1 = content ++ ['\n']) ∨
      '\n' ∉ (splitLine text).1 ∧ (splitLine text).2 = [] := by
  induction text with
  | nil => exact Or.inr ⟨List.not_mem_nil, rfl⟩
  | cons c text ih =>
      by_cases feed : c = '\n'
      · rw [splitLine, if_pos feed, feed]
        exact Or.inl ⟨[], List.not_mem_nil, rfl⟩
      · rw [splitLine, if_neg feed]
        have other : '\n' ≠ c := fun same => feed same.symm
        obtain ⟨content, within, line⟩ | ⟨within, ended⟩ := ih
        · refine Or.inl ⟨c :: content, ?_, by rw [line]; rfl⟩
          exact List.not_mem_cons_of_ne_of_not_mem other within
        · exact Or.inr ⟨List.not_mem_cons_of_ne_of_not_mem other within, ended⟩

theorem isTrivia_line {opening text rest : List Char} {last : Prop}
    (starts : opening = ['#'] ∨ opening = ['/', '/'])
    (ended : (splitLine text).2 = [] → rest = [] ∧ last)
    (behind : IsTrivia last rest) : IsTrivia last (opening ++ (splitLine text).1 ++ rest) := by
  obtain ⟨content, within, line⟩ | ⟨within, none⟩ := splitLine_cases text
  · rw [line, ← List.append_assoc, List.append_assoc (opening ++ content)]
    exact .line starts within behind
  · obtain ⟨rfl, last⟩ := ended none
    rw [List.append_nil]
    exact .lastLine last starts within

theorem first_of_splitComment? {text inside after : List Char}
    (found : splitComment? text = some (inside, after)) :
    ∃ body, inside = body ++ ['*', '/'] ∧ ¬ ['*', '/'] <:+: body := by
  fun_induction splitComment? text generalizing inside with
  | case1 => cases found
  | case2 rest =>
      cases found
      exact ⟨[], rfl, by simp⟩
  | case3 c rest other ih =>
      obtain ⟨⟨inner, _⟩, later, same⟩ := Option.map_eq_some_iff.1 found
      cases same
      obtain ⟨body, rfl, first⟩ := ih later
      have whole := eq_of_splitComment? later
      refine ⟨c :: body, rfl, fun within => ?_⟩
      obtain ⟨more, start⟩ | inner := List.infix_cons_iff.1 within
      · obtain ⟨star, slash⟩ := List.cons.inj start
        refine other (more ++ ['*', '/'] ++ after) star.symm ?_
        rw [whole, ← slash]
        rfl
      · exact first inner

/-- Gaps are made of nothing else. -/
theorem isTrivia_splitGap (text : List Char) :
    IsTrivia ((splitGap text).2 = []) (splitGap text).1 := by
  fun_induction splitGap text with
  | case1 | case6 | case7 => exact .nil
  | case2 c rest blank ih => exact .blank blank ih
  | case3 rest line _ ih =>
      refine @isTrivia_line ['#'] rest _ _ (Or.inl rfl) (fun none => ?_) ih
      rw [show line.2 = [] from none, splitGap_nil]
      exact ⟨rfl, rfl⟩
  | case4 c rest _ _ slashes line ih =>
      simp only [Bool.and_eq_true, decide_eq_true_eq] at slashes
      obtain ⟨rfl, head⟩ := slashes
      obtain ⟨more, rfl⟩ := List.head?_eq_some_iff.1 head
      have cut : line = ('/' :: (splitLine more).1, (splitLine more).2) := by
        change splitLine ('/' :: more) = _
        rw [splitLine, if_neg (by decide)]
      rw [cut] at ih ⊢
      refine @isTrivia_line ['/', '/'] more _ _ (Or.inr rfl) (fun none => ?_) ih
      dsimp only
      rw [none, splitGap_nil]
      exact ⟨rfl, rfl⟩
  | case5 c rest _ _ _ opened inside after found ih =>
      simp only [Bool.and_eq_true, decide_eq_true_eq] at opened
      obtain ⟨rfl, _⟩ := opened
      obtain ⟨body, rfl, first⟩ := first_of_splitComment? found
      have trivia := IsTrivia.comment first ih
      simpa using trivia

end Text

/-! ### Tokens in their text -/

theorem Token.sourceOf_ne_nil {tokens : List Token} (read : AreRead tokens) (some : tokens ≠ []) :
    sourceOf tokens ≠ [] := by
  obtain ⟨token, rest, rfl⟩ := List.exists_cons_of_ne_nil some
  have spelled := (read token List.mem_cons_self).spelled
  change token.lexeme.spelling ++ token.gap ++ sourceOf rest ≠ []
  intro none
  exact spelled (List.append_eq_nil_iff.1 (List.append_eq_nil_iff.1 none).1).1

theorem Token.start_of_readFrom {start : Nat} {text : List Char} {token : Token} {rest : List Token}
    (found : readFrom start text = .ok (token :: rest)) : token.start = start := by
  obtain ⟨c, more, after, rfl, plain, read, _, _⟩ := eq_of_readFrom_cons found
  rw [readFrom, if_neg (by simp [plain])] at found
  split at found
  · cases found
  · obtain ⟨_, _, same⟩ := Except.map_ok_iff.1 found
    cases same
    rfl

/-- A token starts behind the bytes in front of it, and its gap reaches to the next one. -/
theorem Token.place_of_readFrom {start : Nat} {text : List Char} {front back : List Token}
    {token : Token} (found : readFrom start text = .ok (front ++ token :: back)) :
    token.start = start + Text.size (sourceOf front) ∧ Text.IsTrivia (back = []) token.gap := by
  induction front generalizing start text with
  | nil =>
      obtain ⟨_, _, after, _, _, _, gap, further⟩ := eq_of_readFrom_cons found
      have behind := sourceOf_of_readFrom further
      have read := areRead_of_readFrom further
      refine ⟨start_of_readFrom found, ?_⟩
      rw [gap]
      -- A gap whose last line has no end has nothing behind it, so no token.
      refine (Text.isTrivia_splitGap after).mono fun none => ?_
      by_contra some
      exact sourceOf_ne_nil read some (behind.trans none)
  | cons first front ih =>
      obtain ⟨_, _, _, _, _, _, _, further⟩ := eq_of_readFrom_cons found
      obtain ⟨place, gap⟩ := ih further
      refine ⟨?_, gap⟩
      have whole : Text.size (sourceOf (first :: front)) = Text.size first.lexeme.spelling +
          Text.size first.gap + Text.size (sourceOf front) := by
        change Text.size (first.lexeme.spelling ++ first.gap ++ sourceOf front) = _
        rw [Text.size_append, Text.size_append]
      omega

theorem Token.pairwise_of_readFrom {start : Nat} {text : List Char} {tokens : List Token}
    (found : readFrom start text = .ok tokens) : (∀ token ∈ tokens, start ≤ token.start) ∧
      tokens.Pairwise fun left right => left.stop ≤ right.start := by
  induction tokens generalizing start text with
  | nil => exact ⟨by simp, .nil⟩
  | cons token rest ih =>
      obtain ⟨_, _, _, _, _, _, _, further⟩ := eq_of_readFrom_cons found
      have here := start_of_readFrom found
      obtain ⟨behind, ordered⟩ := ih further
      refine ⟨List.forall_mem_cons.2 ⟨by omega, fun right mem => ?_⟩,
        .cons (fun right mem => ?_) ordered⟩
      · have := behind right mem
        omega
      · have := behind right mem
        rw [stop]
        omega

namespace Lexed

/-- Where the lexer stops, which is where it puts the mark of the end. -/
def stop (lexed : Lexed) : Nat :=
  match lexed.tokens.getLast? with
  | some token => token.stop + Text.size token.gap
  | none => Text.size lexed.lead

/-- How the spans of tokens lie in their text. Gaps between tokens have their lines ended. -/
structure Tiles (lexed : Lexed) (text : List Char) : Prop where
  filled : ∀ token ∈ lexed.tokens, token.start < token.stop
  ordered : lexed.tokens.Pairwise fun left right =>
    left.start < right.start ∧ left.stop ≤ right.start
  spelled : ∀ token ∈ lexed.tokens,
    Text.slice? token.start token.stop text = some token.lexeme.spelling
  ended : lexed.stop = Text.size text
  lead : ∃ gap, Text.slice? 0 (lexed.tokens.head?.elim lexed.stop Token.start) text = some gap ∧
    Text.IsTrivia (lexed.tokens = []) gap
  between : ∀ left right, [left, right] <:+: lexed.tokens →
    ∃ gap, Text.slice? left.stop right.start text = some gap ∧ Text.IsTrivia False gap
  trail : ∀ last ∈ lexed.tokens.getLast?,
    ∃ gap, Text.slice? last.stop lexed.stop text = some gap ∧ Text.IsTrivia True gap

variable {lexed : Lexed} {text : List Char}

theorem place_of_ofText (found : ofText text = .ok lexed) {front back : List Token} {token : Token}
    (tokens : lexed.tokens = front ++ token :: back) :
    text = lexed.lead ++ Token.sourceOf front ++
        (token.lexeme.spelling ++ (token.gap ++ Token.sourceOf back)) ∧
      token.start = Text.size (lexed.lead ++ Token.sourceOf front) ∧
      Text.IsTrivia (back = []) token.gap := by
  have whole := Token.source_of_ofText found
  obtain ⟨tokens', read, rfl⟩ := Except.map_ok_iff.1 found
  dsimp only at tokens whole ⊢
  subst tokens
  obtain ⟨place, gap⟩ := Token.place_of_readFrom read
  refine ⟨whole.symm.trans ?_, by rw [place, Text.size_append], gap⟩
  rw [source, Token.sourceOf_append]
  simp [Token.sourceOf]

theorem size_of_ofText (found : ofText text = .ok lexed) : lexed.stop = Text.size text := by
  cases ends : lexed.tokens.getLast? with
  | none =>
      have tokens := List.getLast?_eq_none_iff.1 ends
      have whole := Token.source_of_ofText found
      rw [stop, ends, ← whole, source, tokens]
      simp [Token.sourceOf]
  | some last =>
      obtain ⟨front, tokens⟩ := List.getLast?_eq_some_iff.1 ends
      obtain ⟨whole, start, _⟩ := place_of_ofText found tokens
      rw [stop, ends, whole]
      simp only [Token.stop, start, Text.size_append, Token.sourceOf, List.flatMap_nil,
        Text.size_nil]
      omega

theorem gap_of_ofText (found : ofText text = .ok lexed) {front back : List Token} {token : Token}
    (tokens : lexed.tokens = front ++ token :: back) :
    Text.slice? token.stop (back.head?.elim lexed.stop Token.start) text = some token.gap := by
  obtain ⟨whole, start, _⟩ := place_of_ofText found tokens
  have stop : token.stop =
      Text.size (lexed.lead ++ Token.sourceOf front ++ token.lexeme.spelling) := by
    rw [Token.stop, start, ← Text.size_append]
  have next : back.head?.elim lexed.stop Token.start = token.stop + Text.size token.gap := by
    cases back with
    | nil =>
        rw [List.head?_nil, Option.elim_none, Lexed.stop, tokens, List.getLast?_concat]
    | cons right back =>
        have again : lexed.tokens = (front ++ [token]) ++ right :: back := by simp [tokens]
        obtain ⟨_, start', _⟩ := place_of_ofText found again
        rw [List.head?_cons, Option.elim_some, start', stop]
        simp [Token.sourceOf, Nat.add_assoc]
  rw [next, stop, whole, ← List.append_assoc (_ ++ _) token.lexeme.spelling]
  exact Text.slice?_append _ _ _

theorem lead_of_ofText (found : ofText text = .ok lexed) :
    Text.slice? 0 (lexed.tokens.head?.elim lexed.stop Token.start) text = some lexed.lead ∧
      Text.IsTrivia (lexed.tokens = []) lexed.lead := by
  have whole := Token.source_of_ofText found
  constructor
  · have first : lexed.tokens.head?.elim lexed.stop Token.start =
        Text.size [] + Text.size lexed.lead := by
      cases tokens : lexed.tokens with
      | nil => simp [stop, tokens]
      | cons token rest =>
          obtain ⟨_, start, _⟩ := @place_of_ofText _ _ found [] rest token tokens
          rw [List.head?_cons, Option.elim_some, start]
          simp [Token.sourceOf]
    rw [first, ← whole]
    exact Text.slice?_append [] lexed.lead _
  · obtain ⟨tokens, read, rfl⟩ := Except.map_ok_iff.1 found
    refine (Text.isTrivia_splitGap text).mono fun none => ?_
    rw [none, Token.readFrom] at read
    cases read
    rfl

/-- Tokens tile their text: spans hold bytes, lie in order and hold the spellings of their tokens;
the end mark stands at the end; all else is blank, comment or directive. -/
theorem tiles_of_ofText (found : ofText text = .ok lexed) : lexed.Tiles text := by
  have filled : ∀ token ∈ lexed.tokens, token.start < token.stop := by
    intro token mem
    have spelled := (areRead_of_ofText found token mem).spelled
    obtain ⟨c, rest, spelling⟩ := List.exists_cons_of_ne_nil spelled
    have positive := c.utf8Size_pos
    rw [Token.stop, spelling, Text.size_cons]
    omega
  have ordered : lexed.tokens.Pairwise fun left right => left.stop ≤ right.start := by
    obtain ⟨tokens, read, rfl⟩ := Except.map_ok_iff.1 found
    exact (Token.pairwise_of_readFrom read).2
  refine ⟨filled, ?_, ?_, size_of_ofText found, ⟨_, lead_of_ofText found⟩, ?_, ?_⟩
  · refine ordered.imp_of_mem fun {left right} mem _ behind => ?_
    have := filled left mem
    exact ⟨by omega, behind⟩
  · intro token mem
    obtain ⟨front, back, tokens⟩ := List.append_of_mem mem
    obtain ⟨whole, start, _⟩ := place_of_ofText found tokens
    rw [whole, Token.stop, start]
    exact Text.slice?_append _ _ _
  · rintro left right ⟨front, back, tokens⟩
    have tokens' : lexed.tokens = front ++ left :: (right :: back) := by simp [← tokens]
    refine ⟨left.gap, gap_of_ofText found tokens', ?_⟩
    exact (place_of_ofText found tokens').2.2.mono (List.cons_ne_nil _ _)
  · intro last ends
    obtain ⟨front, tokens⟩ := List.getLast?_eq_some_iff.1 ends
    refine ⟨last.gap, gap_of_ofText found tokens, ?_⟩
    exact (place_of_ofText found tokens).2.2.mono fun _ => trivial

theorem tiles_of_accented_literal : ∃ lexed : Lexed,
    ofText "#d\n/*\u00e9*/\"\u00e9\"x //y".toList = .ok lexed ∧
      lexed.Tiles "#d\n/*\u00e9*/\"\u00e9\"x //y".toList ∧
      lexed.tokens.map (fun token => (token.start, token.stop)) = [(9, 13), (13, 14)] := by
  let tokens : List Token := [⟨.string "\u00e9", 9, []⟩, ⟨.identifier "x", 13, " //y".toList⟩]
  have found : ofText "#d\n/*\u00e9*/\"\u00e9\"x //y".toList =
      .ok ⟨"#d\n/*\u00e9*/".toList, tokens⟩ := by cbv
  exact ⟨_, found, tiles_of_ofText found, by cbv⟩

end Lexed

end PxdStub
