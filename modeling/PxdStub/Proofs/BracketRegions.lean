import PxdStub.Proofs.LiteralFrames
import PxdStub.Proofs.Spans

/-!
Brackets are matched twice: in text, by characters, and in tokens. In text without literals,
directives and comments every bracket character is a token of its own, and both give the same region
or the same error.
-/

namespace PxdStub

/-! ### Bare text -/

namespace Text

/-- Text without literals, directives and comments. -/
structure IsBare (text : List Char) : Prop where
  unquoted : ∀ c ∈ text, c ≠ '"' ∧ c ≠ '\''
  noDirective : '#' ∉ text
  noLine : ¬ ['/', '/'] <:+: text
  noComment : ¬ ['/', '*'] <:+: text

theorem IsBare.of_infix {part text : List Char} (bare : IsBare text) (within : part <:+: text) :
    IsBare part :=
  ⟨fun c mem => bare.unquoted c (within.subset mem),
    fun mem => bare.noDirective (within.subset mem),
    fun mark => bare.noLine (mark.trans within), fun mark => bare.noComment (mark.trans within)⟩

/-- Gaps of bare text are blank. -/
theorem IsBare.splitGap {text : List Char} (bare : IsBare text) :
    ∀ c ∈ (splitGap text).1, isBlank c := by
  obtain ⟨blanks, directive, gap, allBlank, head⟩ :=
    exists_blanks_splitGap bare.noLine bare.noComment
  cases directive with
  | nil => rwa [gap, List.append_nil]
  | cons c rest =>
      have within : '#' ∈ (Text.splitGap text).1 := by
        rw [gap, ← head c rfl]
        exact List.mem_append_right _ List.mem_cons_self
      have whole := splitGap_append text
      exact absurd (whole ▸ List.mem_append_left _ within) bare.noDirective

end Text

/-! ### Bare tokens -/

namespace Bracket

variable (kind : Bracket)

theorem opening_ne_closing : kind.opening ≠ kind.closing := by
  cases kind <;> decide

theorem not_isBlank : Text.isBlank kind.opening = false ∧ Text.isBlank kind.closing = false := by
  cases kind <;> decide

theorem not_isNumberPart : Lexeme.isNumberPart kind.opening = false ∧
    Lexeme.isNumberPart kind.closing = false := by
  cases kind <;> decide

end Bracket

namespace Lexeme

/-- A bracket character stands in a lexeme only where the lexeme is that bracket. -/
def IsolatesBrackets (lexeme : Lexeme) : Prop :=
  ∀ kind : Bracket, (kind.opening ∈ lexeme.spelling → lexeme = .opening kind) ∧
    (kind.closing ∈ lexeme.spelling → lexeme = .closing kind)

theorem isolatesBrackets_of_run {lexeme : Lexeme} (run : ∀ c ∈ lexeme.spelling, isNumberPart c) :
    lexeme.IsolatesBrackets := by
  intro kind
  obtain ⟨opening, closing⟩ := kind.not_isNumberPart
  constructor
  · intro mem
    cases opening.symm.trans (run _ mem)
  · intro mem
    cases closing.symm.trans (run _ mem)

theorem isolatesBrackets_ofChar (c : Char) : (ofChar c).IsolatesBrackets := by
  intro kind
  rw [spelling_ofChar, List.mem_singleton, List.mem_singleton]
  cases kind <;> constructor <;> rintro rfl <;> rfl

theorem isolatesBrackets_of_read? {c : Char} {rest after : List Char} {lexeme : Lexeme}
    (unquoted : c ≠ '"' ∧ c ≠ '\'') (found : read? c rest = some (lexeme, after)) :
    lexeme.IsolatesBrackets := by
  rw [read?.eq_def, if_neg unquoted.1, if_neg unquoted.2] at found
  split at found
  · next digit =>
      cases found
      refine isolatesBrackets_of_run ?_
      rw [spelling, String.toList_ofList, List.forall_mem_cons]
      refine ⟨?_, fun d mem => List.mem_takeWhile_imp mem⟩
      simp [isNumberPart, Char.isAlphanum, digit]
  · split at found
    · next starts =>
        cases found
        refine isolatesBrackets_of_run ?_
        rw [spelling_ofWord, String.toList_ofList, List.forall_mem_cons]
        refine ⟨isNumberPart_of_isWordPart ?_, fun d mem =>
          isNumberPart_of_isWordPart (List.mem_takeWhile_imp mem)⟩
        rw [isWordStart, Bool.or_eq_true] at starts
        rw [isWordPart, Char.isAlphanum, Bool.or_eq_true, Bool.or_eq_true]
        exact starts.imp_left Or.inl
    · split at found <;> cases found
      · intro kind
        cases kind <;> decide
      · intro kind
        cases kind <;> decide
      · exact isolatesBrackets_ofChar c

end Lexeme

namespace Token

/-- Tokens of bare text. -/
structure IsBare (token : Token) : Prop where
  gap : ∀ c ∈ token.gap, Text.isBlank c
  isolates : token.lexeme.IsolatesBrackets

theorem isBare_of_readFrom {start : Nat} {text : List Char} {tokens : List Token}
    (found : readFrom start text = .ok tokens) (bare : Text.IsBare text) :
    ∀ token ∈ tokens, token.IsBare := by
  intro token mem
  obtain ⟨c, rest, after, place, behind, read, gap⟩ := read?_of_mem_readFrom found mem
  have bare' : Text.IsBare after :=
    bare.of_infix ((behind.trans (List.suffix_cons c rest)).trans place).isInfix
  refine ⟨?_, Lexeme.isolatesBrackets_of_read? (bare.unquoted c ?_) read⟩
  · rw [gap]
    exact bare'.splitGap
  · exact place.subset List.mem_cons_self

end Token

theorem Token.sourceOf_cons (token : Token) (rest : List Token) :
    sourceOf (token :: rest) = token.lexeme.spelling ++ (token.gap ++ sourceOf rest) :=
  List.append_assoc _ _ _

/-! ### Regions -/

namespace Delimiter

variable {kind : Bracket} {depth : Nat}

theorem close?_bracket_of_plain {text : List Char} (opening : kind.opening ∉ text)
    (closing : kind.closing ∉ text) (more : List Char) :
    (bracket kind).close? depth (text ++ more) =
      ((bracket kind).close? depth more).map fun (inside, after) => (text ++ inside, after) := by
  induction text with
  | nil => simp
  | cons c text ih =>
      obtain ⟨other, opening⟩ := List.ne_and_not_mem_of_not_mem_cons opening
      obtain ⟨other', closing⟩ := List.ne_and_not_mem_of_not_mem_cons closing
      rw [List.cons_append, close?_of_other, ih opening closing, Option.map_map]
      · rfl
      · rw [Delimiter.opening, Text.after?, if_neg other]
      · rw [Delimiter.closing, Text.after?, if_neg other']

theorem close?_gap {token : Token} (bare : token.IsBare) (more : List Char) :
    (bracket kind).close? depth (token.gap ++ more) =
      ((bracket kind).close? depth more).map fun (inside, after) =>
        (token.gap ++ inside, after) := by
  obtain ⟨opening, closing⟩ := kind.not_isBlank
  refine close?_bracket_of_plain (fun mem => ?_) (fun mem => ?_) more
  · cases opening.symm.trans (bare.gap _ mem)
  · cases closing.symm.trans (bare.gap _ mem)

/-- Brackets close in a run of bare tokens where they close in its text. -/
theorem close?_sourceOf {tokens : List Token} (bare : ∀ token ∈ tokens, token.IsBare) :
    (bracket kind).close? depth (Token.sourceOf tokens) =
      (Enclosure.close? kind depth tokens).map fun found =>
        (Token.sourceOf found.inside, found.close.gap ++ Token.sourceOf found.after) := by
  induction tokens generalizing depth with
  | nil => rw [Enclosure.close?, Token.sourceOf, List.flatMap_nil, close?]; rfl
  | cons token rest ih =>
      obtain ⟨here, bare⟩ := List.forall_mem_cons.1 bare
      have behind : ∀ depth, (bracket kind).close? depth (token.gap ++ Token.sourceOf rest) =
          (Enclosure.close? kind depth rest).map fun found =>
            (token.gap ++ Token.sourceOf found.inside,
              found.close.gap ++ Token.sourceOf found.after) := by
        intro depth
        rw [close?_gap here, ih bare, Option.map_map]
        rfl
      -- A token inside the region stands at its front in both views.
      have shift : ∀ depth', ((bracket kind).close? depth' (token.gap ++ Token.sourceOf rest)).map
            (fun (inside, after) => (token.lexeme.spelling ++ inside, after)) =
          ((Enclosure.close? kind depth' rest).map fun found =>
            { found with inside := token :: found.inside }).map fun found =>
              (Token.sourceOf found.inside, found.close.gap ++ Token.sourceOf found.after) := by
        intro depth'
        rw [behind, Option.map_map, Option.map_map]
        refine congrArg (Option.map · _) (funext fun found => ?_)
        rw [Function.comp_apply, Function.comp_apply, Token.sourceOf_cons]
      rw [Token.sourceOf_cons]
      unfold Enclosure.close?
      by_cases opens : token.lexeme = .opening kind
      · rw [if_pos opens, ← shift, opens]
        exact close?_of_opens (by simp [Lexeme.spelling, Delimiter.opening, Text.after?])
      · rw [if_neg opens]
        by_cases closes : token.lexeme = .closing kind
        · rw [if_pos closes, closes, @close?_of_closes _ _ _ (token.gap ++ Token.sourceOf rest)]
          · cases depth with
            | zero => rfl
            | succ outer =>
                dsimp only
                rw [← shift, closes]
                rfl
          · simp [Lexeme.spelling, Delimiter.opening, Text.after?, kind.opening_ne_closing]
          · simp [Lexeme.spelling, Delimiter.closing, Text.after?]
        · rw [if_neg closes, ← shift]
          exact close?_bracket_of_plain (fun mem => opens ((here.isolates kind).1 mem))
            (fun mem => closes ((here.isolates kind).2 mem)) _

end Delimiter

theorem Region.find?_of_head {kind : Bracket} (behind : List Char) :
    find? (.bracket kind) (kind.opening :: behind) =
      match (Delimiter.bracket kind).close? 0 behind with
      | some (inside, after) => .ok (some ⟨[], Text.trim inside, Text.trim after⟩)
      | none =>
          .error (.unbalanced (.bracket kind) (Text.excerpt (kind.opening :: behind))) := by
  have cut : Text.cut? (Delimiter.bracket kind).opening (kind.opening :: behind) =
      some ([], behind) := by
    simp [Delimiter.opening, Text.cut?, Text.after?]
  rw [find?, cut]
  rfl

namespace Lexed

variable {lexed : Lexed} {text : List Char}

theorem isBare_of_ofText (found : ofText text = .ok lexed) (bare : Text.IsBare text) :
    (∀ c ∈ lexed.lead, Text.isBlank c) ∧ ∀ token ∈ lexed.tokens, token.IsBare := by
  obtain ⟨tokens, read, rfl⟩ := Except.map_ok_iff.1 found
  have behind := bare.of_infix (Text.suffix_splitGap text).isInfix
  exact ⟨bare.splitGap, Token.isBare_of_readFrom read behind⟩

/-- A bracket stands in a bare text where one of its tokens is that bracket. -/
theorem find?_eq_none_iff (found : ofText text = .ok lexed) (bare : Text.IsBare text)
    (kind : Bracket) : Region.find? (.bracket kind) text = .ok none ↔
      ∀ token ∈ lexed.tokens, token.lexeme ≠ .opening kind := by
  obtain ⟨lead, tokens⟩ := isBare_of_ofText found bare
  have whole := Token.source_of_ofText found
  have occurs : kind.opening ∈ text ↔ ∃ token ∈ lexed.tokens, token.lexeme = .opening kind := by
    rw [← whole, source, List.mem_append, Token.sourceOf, List.mem_flatMap]
    constructor
    · rintro (mem | ⟨token, mem, mem'⟩)
      · cases kind.not_isBlank.1.symm.trans (lead _ mem)
      · obtain ⟨gap, isolates⟩ := tokens token mem
        obtain mem' | mem' := List.mem_append.1 mem'
        · exact ⟨token, mem, (isolates kind).1 mem'⟩
        · cases kind.not_isBlank.1.symm.trans (gap _ mem')
    · rintro ⟨token, mem, opens⟩
      refine .inr ⟨token, mem, List.mem_append_left _ ?_⟩
      rw [opens]
      exact List.mem_singleton_self _
  have mark : (Delimiter.bracket kind).opening <:+: text ↔ kind.opening ∈ text :=
    List.singleton_infix_iff kind.opening text
  rw [Region.find?_eq_none_iff]
  constructor
  · intro none token mem opens
    refine Text.not_infix_of_cut?_none none (Delimiter.opening_ne_nil _) (mark.2 ?_)
    exact occurs.2 ⟨token, mem, opens⟩
  · intro other
    refine Text.cut?_of_not_infix fun within => ?_
    obtain ⟨token, mem, opens⟩ := occurs.1 (mark.1 within)
    exact other token mem opens

/-- The text from a token on, the text behind it, and the text between it and a later token. -/
theorem slices_of_ofText (found : ofText text = .ok lexed) {front rest : List Token}
    {token : Token} (tokens : lexed.tokens = front ++ token :: rest) :
    Text.slice? token.start (Text.size text) text = some (Token.sourceOf (token :: rest)) ∧
      Text.slice? token.stop (Text.size text) text = some (token.gap ++ Token.sourceOf rest) ∧
      ∀ inside later after, rest = inside ++ later :: after →
        Text.slice? token.stop later.start text = some (token.gap ++ Token.sourceOf inside) := by
  obtain ⟨whole, start, _⟩ := place_of_ofText found tokens
  have stop : token.stop =
      Text.size (lexed.lead ++ Token.sourceOf front ++ token.lexeme.spelling) := by
    rw [Token.stop, start, ← Text.size_append]
  have whole' : text = lexed.lead ++ Token.sourceOf front ++ token.lexeme.spelling ++
      (token.gap ++ Token.sourceOf rest) := by
    rw [whole]
    simp only [List.append_assoc]
  refine ⟨?_, ?_, ?_⟩
  · have slice := Text.slice?_append (lexed.lead ++ Token.sourceOf front)
      (Token.sourceOf (token :: rest)) []
    rw [List.append_nil, Token.sourceOf_cons, ← Text.size_append, ← whole, ← start] at slice
    rwa [Token.sourceOf_cons]
  · have slice := Text.slice?_append (lexed.lead ++ Token.sourceOf front ++ token.lexeme.spelling)
      (token.gap ++ Token.sourceOf rest) []
    rwa [List.append_nil, ← whole', ← Text.size_append, ← whole', ← stop] at slice
  · rintro inside later after rfl
    have tokens' : lexed.tokens = (front ++ token :: inside) ++ later :: after := by
      rw [tokens, List.append_assoc]
      rfl
    obtain ⟨_, start', _⟩ := place_of_ofText found tokens'
    have slice := Text.slice?_append (lexed.lead ++ Token.sourceOf front ++ token.lexeme.spelling)
      (token.gap ++ Token.sourceOf inside) (Token.sourceOf (later :: after))
    have size : Text.size (lexed.lead ++ Token.sourceOf (front ++ token :: inside)) =
        Text.size (lexed.lead ++ Token.sourceOf front ++ token.lexeme.spelling) +
          Text.size (token.gap ++ Token.sourceOf inside) := by
      simp [Token.sourceOf, Nat.add_assoc]
    have split : token.gap ++ Token.sourceOf inside ++ Token.sourceOf (later :: after) =
        token.gap ++ Token.sourceOf (inside ++ later :: after) := by
      rw [List.append_assoc, Token.sourceOf_append]
    rw [← stop, split, ← whole'] at slice
    rwa [start', size, ← stop]

/-- In bare text an opening bracket has the same region by characters and by tokens, or the same
error, wherever a reader stands; and there is no region where no token opens one. -/
theorem region_of_bracket (found : ofText text = .ok lexed) (bare : Text.IsBare text)
    (kind : Bracket) :
    (∀ front token rest place, lexed.tokens = front ++ token :: rest →
      token.lexeme = .opening kind →
      ∃ here, Text.slice? token.start (Text.size text) text = some here ∧
        match Enclosure.read [] place (token :: rest) with
        | .ok enclosure => ∃ inside after,
            Text.slice? token.stop enclosure.close.start text = some inside ∧
            Text.slice? enclosure.close.stop (Text.size text) text = some after ∧
            Region.find? (.bracket kind) here = .ok (some ⟨[], Text.trim inside, Text.trim after⟩)
        | .error failure =>
            failure.error = .unbalanced (.bracket kind) (Text.excerpt here) ∧
            Region.find? (.bracket kind) here = .error failure.error) ∧
      (Region.find? (.bracket kind) text = .ok none ↔
        ∀ token ∈ lexed.tokens, token.lexeme ≠ .opening kind) := by
  refine ⟨fun front token rest place tokens opens => ?_, find?_eq_none_iff found bare kind⟩
  obtain ⟨start, _, between⟩ := slices_of_ofText found tokens
  obtain ⟨bare', bares⟩ : token.IsBare ∧ ∀ token ∈ rest, token.IsBare := by
    have all := (isBare_of_ofText found bare).2
    rw [tokens] at all
    exact List.forall_mem_cons.1 fun other mem => all other (List.mem_append_right front mem)
  have here : Token.sourceOf (token :: rest) =
      kind.opening :: (token.gap ++ Token.sourceOf rest) := by
    rw [Token.sourceOf_cons, opens]
    rfl
  refine ⟨_, start, ?_⟩
  rw [Enclosure.read_of_opens opens, List.append_nil, here, Region.find?_of_head,
    Delimiter.close?_gap bare', Delimiter.close?_sourceOf bares]
  cases closed : Enclosure.close? kind 0 rest with
  | none => exact ⟨rfl, rfl⟩
  | some enclosure =>
      obtain ⟨whole, _⟩ := Enclosure.eq_of_close? closed
      have tokens' : lexed.tokens = (front ++ token :: enclosure.inside) ++
          enclosure.close :: enclosure.after := by
        rw [tokens, List.append_assoc, whole]
        rfl
      obtain ⟨_, behind, _⟩ := slices_of_ofText found tokens'
      exact ⟨_, _, between _ _ _ whole, behind, rfl⟩

theorem region_of_bracket_call :
    Region.find? (.bracket .round) "( g(1) ) [(".toList =
        .ok (some ⟨[], "g(1)".toList, "[(".toList⟩) ∧
      Region.find? (.bracket .square) "[(".toList =
        .error (.unbalanced (.bracket .square) "[(") ∧
      Region.find? (.bracket .curly) "f( g(1) ) [(".toList = .ok none := by
  let front : List Token := [⟨.identifier "f", 0, []⟩]
  let inside : List Token := [⟨.identifier "g", 3, []⟩, ⟨.opening .round, 4, []⟩,
    ⟨.number "1", 5, []⟩, ⟨.closing .round, 6, [' ']⟩]
  let opens : Token := ⟨.opening .round, 1, [' ']⟩
  let closes : Token := ⟨.closing .round, 8, [' ']⟩
  let bracket : Token := ⟨.opening .square, 10, []⟩
  let last : Token := ⟨.opening .round, 11, []⟩
  have found : ofText "f( g(1) ) [(".toList =
      .ok ⟨[], front ++ opens :: (inside ++ closes :: [bracket, last])⟩ := by cbv
  have bare : Text.IsBare "f( g(1) ) [(".toList := by
    simp only [String.reduceToList]
    exact ⟨by simp, by decide, by decide, by decide⟩
  refine ⟨?_, ?_, ?_⟩
  · obtain ⟨here, slice, region⟩ := (region_of_bracket found bare .round).1 front opens _ [] rfl rfl
    have start : Text.slice? opens.start (Text.size "f( g(1) ) [(".toList) "f( g(1) ) [(".toList =
        some "( g(1) ) [(".toList := by cbv
    cases start.symm.trans slice
    have read : Enclosure.read [] [] (opens :: (inside ++ closes :: [bracket, last])) =
        .ok ⟨inside, closes, [bracket, last]⟩ := by cbv
    rw [read] at region
    obtain ⟨between, behind, first, second, region⟩ := region
    have first' : Text.slice? opens.stop closes.start "f( g(1) ) [(".toList =
        some " g(1) ".toList := by cbv
    have second' : Text.slice? closes.stop (Text.size "f( g(1) ) [(".toList)
        "f( g(1) ) [(".toList = some " [(".toList := by cbv
    cases first'.symm.trans first
    cases second'.symm.trans second
    exact region
  · obtain ⟨here, slice, region⟩ := (region_of_bracket found bare .square).1
      (front ++ opens :: (inside ++ [closes])) bracket [last] [] rfl rfl
    have start : Text.slice? bracket.start (Text.size "f( g(1) ) [(".toList)
        "f( g(1) ) [(".toList = some "[(".toList := by cbv
    cases start.symm.trans slice
    exact region.2
  · exact (region_of_bracket found bare .curly).2.2 (by decide)

end Lexed

end PxdStub
