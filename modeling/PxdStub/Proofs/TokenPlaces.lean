import PxdStub.Proofs.BracketRegions
import PxdStub.Proofs.Concatenation

/-!
Places of tokens. A part of a text that is cut out between two tokens has the tokens of the text,
and texts on lines one behind the other have the tokens of both; only the places move, all by the
same number of bytes.
-/

namespace PxdStub

/-- A lexeme and the bytes that it covers. The end of a text is a place without a lexeme. -/
structure Place where
  lexeme : Option Lexeme
  start : Nat
  stop : Nat
  deriving DecidableEq, Repr

namespace Place

def ending (stop : Nat) : Place :=
  ⟨none, stop, stop⟩

/-- The place when `count` bytes come in front of the text. -/
def shift (count : Nat) (place : Place) : Place :=
  { place with start := place.start + count, stop := place.stop + count }

end Place

def Token.place (token : Token) : Place :=
  ⟨some token.lexeme, token.start, token.stop⟩

/-- The places of the tokens and of the end of the text. -/
def Lexed.places (lexed : Lexed) : List Place :=
  lexed.tokens.map Token.place ++ [.ending lexed.stop]

/-! ### Tokens one behind the other -/

namespace Token

variable {start : Nat} {text : List Char} {tokens : List Token}

theorem placed_of_readFrom (found : readFrom start text = .ok tokens) :
    placed start tokens = tokens := by
  have again := readFrom_placed found start
  rw [found] at again
  exact (Except.ok.inj again).symm

@[simp] theorem length_placed (start : Nat) (tokens : List Token) :
    (placed start tokens).length = tokens.length := by
  induction tokens generalizing start with
  | nil => rfl
  | cons token rest ih => simp [placed, ih]

@[simp] theorem sourceOf_placed (start : Nat) (tokens : List Token) :
    sourceOf (placed start tokens) = sourceOf tokens := by
  induction tokens generalizing start with
  | nil => rfl
  | cons token rest ih => rw [placed, sourceOf_cons, sourceOf_cons, ih]

theorem placed_append (start : Nat) (front back : List Token) :
    placed start (front ++ back) =
      placed start front ++ placed (start + Text.size (sourceOf front)) back := by
  induction front generalizing start with
  | nil => rfl
  | cons token front ih =>
      have places : start + Text.size (sourceOf (token :: front)) =
          start + Text.size token.lexeme.spelling + Text.size token.gap +
            Text.size (sourceOf front) := by
        simp only [sourceOf_cons, Text.size_append]
        omega
      rw [List.cons_append, placed, placed, ih, places, List.cons_append]

theorem places_placed_add (start count : Nat) (tokens : List Token) :
    (placed (start + count) tokens).map place =
      ((placed start tokens).map place).map (Place.shift count) := by
  induction tokens generalizing start with
  | nil => rfl
  | cons token rest ih =>
      have behind := ih (start + Text.size token.lexeme.spelling + Text.size token.gap)
      have next : start + Text.size token.lexeme.spelling + Text.size token.gap + count =
          start + count + Text.size token.lexeme.spelling + Text.size token.gap := by omega
      rw [next] at behind
      simp only [placed, List.map_cons, behind, List.cons.injEq, and_true]
      simp only [place, stop, Place.shift, Place.mk.injEq, true_and]
      omega

/-- What stands behind the last token has no say in the places. -/
theorem places_placed_extended (start : Nat) (more : List Char) (tokens : List Token) :
    (placed start (extended more tokens)).map place = (placed start tokens).map place := by
  induction tokens generalizing start with
  | nil => rfl
  | cons token rest ih =>
      by_cases last : rest = []
      · subst last
        rfl
      · rw [extended_cons last, placed, placed, List.map_cons, List.map_cons, ih]

theorem Twins.places_placed {quoted : Prop} {beyond beyond' : List Char} {tokens' : List Token}
    (twins : Twins True quoted beyond beyond' tokens tokens') (start : Nat) :
    (placed start tokens).map place = (placed start tokens').map place := by
  induction twins generalizing start with
  | nil => rfl
  | @cons token token' rest rest' same gap _ behind ih =>
      have here : (⟨token.lexeme, start, token.gap⟩ : Token).place =
          (⟨token'.lexeme, start, token'.gap⟩ : Token).place := by
        simp [place, stop, same]
      by_cases last : rest = []
      · subst last
        cases behind
        simp [placed, here]
      · simp only [placed, List.map_cons, same, gap trivial last, ih]

end Token

/-! ### Parts of a text -/

namespace Lexed

variable {text more : List Char} {lexed lexedMore again : Lexed}

theorem placed_run (found : ofText text = .ok lexed) {front run back : List Token} {first : Token}
    (tokens : lexed.tokens = front ++ (run ++ back)) (head : run.head? = some first) :
    Token.placed first.start run = run := by
  have within : run ++ back <:+ lexed.tokens := ⟨front, tokens.symm⟩
  obtain ⟨⟨start, read⟩, _⟩ := (Token.areLexed_of_ofText found).suffix within
  have placed := Token.placed_of_readFrom read
  rw [Token.placed_append] at placed
  obtain ⟨here, _⟩ := List.append_inj placed (Token.length_placed start run)
  obtain ⟨more, rfl⟩ := List.head?_eq_some_iff.1 head
  have same : first.start = start := Token.start_of_readFrom read
  rw [same]
  exact here

theorem placed_of_ofText (found : ofText text = .ok lexed) :
    Token.placed (Text.size lexed.lead) lexed.tokens = lexed.tokens := by
  obtain ⟨tokens, read, rfl⟩ := Except.map_ok_iff.1 found
  exact Token.placed_of_readFrom read

/-- Tokens that are read again from a part of their text have their places moved. -/
theorem places_of_twins {quoted : Prop} {beyond beyond' part : List Char} {run run' : List Token}
    {start : Nat} (placed : Token.placed start run = run)
    (twins : Token.Twins True quoted beyond beyond' run run')
    (lexes : ofText part = .ok ⟨[], run'⟩) :
    (⟨[], run'⟩ : Lexed).places.map (Place.shift start) =
      run.map Token.place ++ [.ending (start + Text.size part)] := by
  have placed' : Token.placed 0 run' = run' := placed_of_ofText lexes
  have moved : (run'.map Token.place).map (Place.shift start) = run.map Token.place := by
    have shifted := Token.places_placed_add 0 start run'
    rw [placed', Nat.zero_add] at shifted
    rw [← shifted, ← twins.places_placed, placed]
  have stop := size_of_ofText lexes
  simp only [places, List.map_append, moved, stop, List.map_cons, List.map_nil]
  simp [Place.shift, Place.ending, Nat.add_comm]

/-- The text between two tokens is the text of the tokens from the one to the other. -/
theorem slice?_run (found : ofText text = .ok lexed) {front middle back : List Token}
    {first last : Token} (tokens : lexed.tokens = front ++ (middle ++ [last] ++ back))
    (head : (middle ++ [last]).head? = some first) :
    Text.slice? first.start last.stop text = some (Token.textOf (middle ++ [last])) := by
  have here : lexed.tokens = (front ++ middle) ++ last :: back := by simp [tokens]
  obtain ⟨whole, start, _⟩ := place_of_ofText found here
  obtain ⟨more, run⟩ := List.head?_eq_some_iff.1 head
  have there : lexed.tokens = front ++ first :: (more ++ back) := by rw [tokens, run]; rfl
  obtain ⟨_, start', _⟩ := place_of_ofText found there
  have stop : first.start + Text.size (Token.textOf (middle ++ [last])) = last.stop := by
    rw [Token.stop, start, start', Token.textOf_concat]
    simp only [Token.sourceOf_append, Text.size_append]
    omega
  rw [← stop, start', whole, Token.textOf_concat, Token.sourceOf_append]
  have slice := Text.slice?_append (lexed.lead ++ Token.sourceOf front)
    (Token.sourceOf middle ++ last.lexeme.spelling) (last.gap ++ Token.sourceOf back)
  simpa using slice

/-- The elements from one place of a list to another, with what stands in front and behind. -/
theorem exists_middle {list : List α} {i j : Nat} (order : i ≤ j) (within : j < list.length) :
    ∃ middle, list.extract i (j + 1) = middle ++ [list[j]] ∧
      list = list.take i ++ (middle ++ [list[j]] ++ list.drop (j + 1)) ∧
      (middle ++ [list[j]]).head? = some list[i] := by
  have run : list.extract i (j + 1) = (list.drop i).take (j - i) ++ [list[j]] := by
    have last : (list.drop i)[j - i]? = some list[j] := by
      rw [List.getElem?_drop, show i + (j - i) = j by omega, List.getElem?_eq_getElem within]
    rw [List.extract_eq_take_drop, show j + 1 - i = j - i + 1 by omega, List.take_add_one, last]
    rfl
  refine ⟨_, run, ?_, ?_⟩
  · rw [← run, List.extract_eq_take_drop]
    have behind : list.drop (j + 1) = (list.drop i).drop (j + 1 - i) := by
      rw [List.drop_drop, show i + (j + 1 - i) = j + 1 by omega]
    rw [behind, List.take_append_drop, List.take_append_drop]
  · rw [← run, List.extract_eq_take_drop, List.head?_take, if_neg (by omega),
      List.drop_eq_getElem_cons (by omega)]
    rfl

/-- The text from one token to another is made of just these tokens, and so is the text from a token
on when its margins are trimmed. -/
theorem places_of_slice (found : ofText text = .ok lexed) {i j : Nat} (order : i ≤ j)
    (within : j < lexed.tokens.length) :
    (∃ part again, Text.slice? lexed.tokens[i].start lexed.tokens[j].stop text = some part ∧
      ofText part = .ok again ∧
      again.places.map (Place.shift lexed.tokens[i].start) =
        (lexed.tokens.extract i (j + 1)).map Token.place ++
          [.ending (lexed.tokens[i].start + Text.size part)]) ∧
    ∃ rest again, Text.slice? lexed.tokens[i].start (Text.size text) text = some rest ∧
      ofText (Text.trim rest) = .ok again ∧
      again.places.map (Place.shift lexed.tokens[i].start) =
        (lexed.tokens.drop i).map Token.place ++
          [.ending (lexed.tokens[i].start + Text.size (Text.trim rest))] := by
  have areLexed := Token.areLexed_of_ofText found
  constructor
  · obtain ⟨middle, run, tokens, head⟩ := exists_middle order within
    have slice := slice?_run found tokens head
    have inside : middle ++ [lexed.tokens[j]] <:+: lexed.tokens :=
      ⟨_, _, by rw [List.append_assoc]; exact tokens.symm⟩
    obtain ⟨_, run', lexes, twins⟩ := areLexed.ofText_infix inside (by simp)
    refine ⟨_, ⟨[], run'⟩, slice, lexes, ?_⟩
    rw [run]
    exact places_of_twins (placed_run found tokens head) twins lexes
  · have cut : lexed.tokens = lexed.tokens.take i ++ lexed.tokens.drop i :=
      (List.take_append_drop i _).symm
    have behind : lexed.tokens.drop i = lexed.tokens[i] :: lexed.tokens.drop (i + 1) :=
      List.drop_eq_getElem_cons (by omega)
    obtain ⟨slice, _⟩ := slices_of_ofText found (cut.trans (by rw [behind]))
    rw [← behind] at slice
    obtain ⟨run', lexes, twins⟩ := (areLexed.suffix ⟨_, cut.symm⟩).ofText_trim
      (by rw [behind]; exact List.cons_ne_nil _ _)
    have run : lexed.tokens = lexed.tokens.take i ++ (lexed.tokens.drop i ++ []) := by
      rw [List.append_nil]
      exact cut
    have placed := placed_run found run (by rw [behind]; rfl)
    exact ⟨_, ⟨[], run'⟩, slice, lexes, places_of_twins placed twins lexes⟩

theorem places_of_slice_between_comments : ∃ lexed,
    ofText "\u00e9/*c*/a = \"//\"; //z ".toList = .ok lexed ∧ 1 ≤ 3 ∧ 3 < lexed.tokens.length ∧
      (∃ part again, Text.slice? 7 15 "\u00e9/*c*/a = \"//\"; //z ".toList = some part ∧
        ofText part = .ok again ∧ again.places.map (Place.shift 7) =
          [⟨some (.identifier "a"), 7, 8⟩, ⟨some (.punctuation .equals), 9, 10⟩,
            ⟨some (.string "//"), 11, 15⟩, .ending (7 + Text.size part)]) ∧
      ∃ rest again, Text.slice? 7 21 "\u00e9/*c*/a = \"//\"; //z ".toList = some rest ∧
        ofText (Text.trim rest) = .ok again ∧ again.places.map (Place.shift 7) =
          [⟨some (.identifier "a"), 7, 8⟩, ⟨some (.punctuation .equals), 9, 10⟩,
            ⟨some (.string "//"), 11, 15⟩, ⟨some (.punctuation .semicolon), 15, 16⟩,
            .ending (7 + Text.size (Text.trim rest))] := by
  let tokens : List Token := [⟨.symbol '\u00e9', 0, "/*c*/".toList⟩, ⟨.identifier "a", 7, [' ']⟩,
    ⟨.punctuation .equals, 9, [' ']⟩, ⟨.string "//", 11, []⟩,
    ⟨.punctuation .semicolon, 15, " //z ".toList⟩]
  have found : ofText "\u00e9/*c*/a = \"//\"; //z ".toList = .ok ⟨[], tokens⟩ := by cbv
  exact ⟨_, found, by decide, by decide, places_of_slice found (by decide : 1 ≤ 3) (by decide)⟩

/-! ### Texts on lines one behind the other -/

/-- The lines of two texts have the tokens of the first text and then those of the second, which
have moved behind the first text and its line feed. -/
theorem places_of_lines (found : ofText text = .ok lexed)
    (foundMore : ofText more = .ok lexedMore) : ∃ whole, ofText (text ++ '\n' :: more) = .ok whole ∧
      whole.places =
        lexed.places.dropLast ++ lexedMore.places.map (Place.shift (Text.size text + 1)) := by
  obtain ⟨lead, same, lexes⟩ := ofText_feed found foundMore
  have kept := fun start =>
    Token.places_placed_extended start ('\n' :: lexedMore.lead) lexed.tokens
  generalize Token.extended ('\n' :: lexedMore.lead) lexed.tokens = front at lexes kept
  refine ⟨_, lexes, ?_⟩
  have feed : '\n'.utf8Size = 1 := rfl
  -- Where the first token of the second text comes to stand.
  have middle : Text.size lead + Text.size (Token.sourceOf front) =
      Text.size lexedMore.lead + (Text.size text + 1) := by
    have source := congrArg Text.size (Token.source_of_ofText lexes)
    have sourceMore := congrArg Text.size (Token.source_of_ofText foundMore)
    simp only [Lexed.source, Token.sourceOf_placed, Token.sourceOf_append, Text.size_append,
      Text.size_cons] at source sourceMore
    omega
  have first : (Token.placed (Text.size lead) front).map Token.place =
      lexed.tokens.map Token.place := by
    rw [kept]
    by_cases none : lexed.tokens = []
    · rw [none]
      rfl
    · rw [same none, placed_of_ofText found]
  have second : (Token.placed (Text.size lead + Text.size (Token.sourceOf front))
      lexedMore.tokens).map Token.place =
        (lexedMore.tokens.map Token.place).map (Place.shift (Text.size text + 1)) := by
    rw [middle, Token.places_placed_add, placed_of_ofText foundMore]
  have last : Place.ending (Text.size (text ++ '\n' :: more)) =
      Place.shift (Text.size text + 1) (.ending (Text.size more)) := by
    simp only [Text.size_append, Text.size_cons, feed, Place.ending, Place.shift, Place.mk.injEq,
      true_and]
    omega
  rw [places, size_of_ofText lexes, last, Token.placed_append, List.map_append, first, second]
  simp [places, size_of_ofText foundMore]

theorem places_of_lines_behind_comment : ∃ lexed lexedMore,
    ofText ". //\u00e9".toList = .ok lexed ∧ ofText ".:".toList = .ok lexedMore ∧
      ∃ whole, ofText (". //\u00e9".toList ++ '\n' :: ".:".toList) = .ok whole ∧
        whole.places = [⟨some (.symbol '.'), 0, 1⟩, ⟨some (.symbol '.'), 7, 8⟩,
          ⟨some (.punctuation .colon), 8, 9⟩, .ending 9] := by
  have found : ofText ". //\u00e9".toList = .ok ⟨[], [⟨.symbol '.', 0, " //\u00e9".toList⟩]⟩ := by
    cbv
  have foundMore : ofText ".:".toList =
      .ok ⟨[], [⟨.symbol '.', 0, []⟩, ⟨.punctuation .colon, 1, []⟩]⟩ := by cbv
  exact ⟨_, _, found, foundMore, places_of_lines found foundMore⟩

end Lexed

end PxdStub
