import PxdStub.Proofs.Bindable
import PxdStub.Proofs.Splicing

/-!
A header around which a namespace is put. The lines that open and close the namespace stay around
the code while comments are cut out of it, and the text between the braces is the code as it was.
-/

namespace PxdStub

namespace Header

/-! ### Comments inside the namespace -/

theorem trim_append_last {text behind : List Char} (trimmed : Text.IsTrimmed behind)
    (some : behind ≠ []) (last : ∀ c ∈ text.getLast?, Text.isBlank c = false) :
    Text.trim (text ++ ' ' :: behind) = splice (Text.trim text) behind := by
  have start : Text.trim text = Text.trimLeft text := by
    rw [Text.trim, ← Text.trimLeft_trimRight, Text.trimRight_of_last last]
  have ends : ∀ front, Text.trimRight (front ++ behind) = front ++ behind := by
    intro front
    refine Text.trimRight_of_last fun c ending => trimmed.last c ?_
    rwa [List.getLast?_append_of_ne_nil _ some] at ending
  rw [start, Text.trim, Text.trimLeft, Text.trimLeft, List.dropWhile_append]
  split
  · next none =>
      rw [List.isEmpty_iff] at none
      rw [none, splice_nil, List.dropWhile_cons_of_pos (by rfl)]
      change Text.trimRight (Text.trimLeft behind) = behind
      rw [trimmed.trimLeft_eq, trimmed.trimRight_eq]
  · next some' =>
      rw [List.isEmpty_iff] at some'
      rw [splice_of_some some', padded_of_some some, ← List.singleton_append, ← List.append_assoc,
        ends]

/-- Texts that can stand around another one, in which no comment opens. -/
structure Surrounds (front behind : List Char) : Prop where
  trimmed : Text.IsTrimmed front
  trimmed' : Text.IsTrimmed behind
  some : front ≠ []
  some' : behind ≠ []
  plain : '/' ∉ front
  plain' : '/' ∉ behind

namespace Surrounds

variable {front behind text : List Char}

theorem cut?_eq (surrounds : Surrounds front behind) :
    Text.cut? Delimiter.comment.opening (front ++ padded text ++ padded behind) =
      (Text.cut? Delimiter.comment.opening text).map fun (before, rest) =>
        (front ++ ' ' :: before, rest ++ ' ' :: behind) := by
  have outside : ∀ part : List Char, '/' ∉ part → ∀ more,
      Text.cut? Delimiter.comment.opening (part ++ more) =
        (Text.cut? Delimiter.comment.opening more).map fun (before, rest) =>
          (part ++ before, rest) := fun _ within more => Text.cut?_of_not_mem within more
  have ended : Text.cut? Delimiter.comment.opening (' ' :: behind) = none := by
    have none := outside (' ' :: behind) (by simp [surrounds.plain']) []
    rwa [List.append_nil] at none
  rw [padded_of_some surrounds.some', List.append_assoc, outside front surrounds.plain]
  by_cases empty : text = []
  · rw [empty, padded, if_pos rfl, List.nil_append, ended]
    rfl
  · have inner := Text.cut?_append (show ' ' ∉ Delimiter.comment.opening by decide) text behind
    have blank := outside [' '] (by decide) (text ++ ' ' :: behind)
    rw [ended] at inner
    rw [inner] at blank
    rw [padded_of_some empty, List.cons_append, ← List.singleton_append, blank]
    cases Text.cut? Delimiter.comment.opening text <;> rfl

theorem withoutComments_eq (surrounds : Surrounds front behind) (trimmed : Text.IsTrimmed text)
    {code : List Char} (found : withoutComments text = .ok code) : Text.IsTrimmed code ∧
      withoutComments (front ++ padded text ++ padded behind) =
        .ok (front ++ padded code ++ padded behind) := by
  fun_induction withoutComments text with
  | case1 text region here ih =>
      obtain ⟨before, rest, inside, after, opened, closed, rfl⟩ := Region.find?_eq_some_iff.1 here
      have whole := Text.eq_of_cut? opened
      have tail := Delimiter.eq_of_close? closed
      have head : ∀ c ∈ before.head?, Text.isBlank c = false :=
        Text.head_of_isPrefix ⟨_, by rw [whole, List.append_assoc]⟩ trimmed.head
      have last : ∀ c ∈ after.getLast?, Text.isBlank c = false := by
        intro c ending
        refine trimmed.last c ?_
        rw [whole, tail, List.getLast?_append, List.getLast?_append, ending]
        rfl
      obtain ⟨trimmed', same⟩ := ih (isTrimmed_splice (Text.isTrimmed_trim _)
        (Text.isTrimmed_trim _)) found
      refine ⟨trimmed', ?_⟩
      -- No comment opens in front, and none that opens inside is closed behind.
      have found' : Region.find? .comment (front ++ padded text ++ padded behind) =
          .ok (Option.some ⟨Text.trim (front ++ ' ' :: before), Text.trim inside,
            Text.trim (after ++ ' ' :: behind)⟩) := by
        refine Region.find?_eq_some_iff.2 ⟨_, rest ++ ' ' :: behind, _, _, ?_, ?_, rfl⟩
        · rw [surrounds.cut?_eq, opened]
          rfl
        · exact Delimiter.close?_append (by decide) (by decide) closed behind
      rw [withoutComments_of_find? found', ← same]
      dsimp only
      rw [trim_append_padded surrounds.trimmed surrounds.some head,
        trim_append_last surrounds.trimmed' surrounds.some' last, splice_of_some, padded_splice,
        padded_splice, List.append_assoc, List.append_assoc, List.append_assoc]
      simp [surrounds.some]
  | case2 text none =>
      cases found
      refine ⟨trimmed, withoutComments_of_cut? ?_⟩
      rw [surrounds.cut?_eq, Region.find?_eq_none_iff.1 none]
      rfl
  | case3 text => cases found

end Surrounds

/-! ### The lines of the namespace -/

/-- Names of namespaces as a header spells them: ASCII words. -/
def isNamespaceName (name : List Char) : Bool :=
  name.head?.any Lexeme.isWordStart && name.all Lexeme.isWordPart

def keyword : List Char :=
  "namespace".toList

theorem keyword_eq : keyword = ['n', 'a', 'm', 'e', 's', 'p', 'a', 'c', 'e'] := by
  rfl

def openingLine (name : List Char) : List Char :=
  keyword ++ ' ' :: (name ++ [' ', '{'])

theorem ink_of_isWordPart {c : Char} (part : Lexeme.isWordPart c) : Text.isBlank c = false :=
  Lexeme.not_blank_of_isNumberPart (Lexeme.isNumberPart_of_isWordPart part)

theorem not_mem_of_isWordPart {name : List Char} (word : name.all Lexeme.isWordPart) {c : Char}
    (other : Lexeme.isWordPart c = false) : c ∉ name := by
  intro mem
  rw [List.all_eq_true.1 word c mem] at other
  cases other

theorem openingLine_eq (name : List Char) :
    openingLine name = keyword ++ ' ' :: (name ++ [' ']) ++ ['{'] := by
  simp [openingLine]

theorem not_mem_openingLine {name : List Char} (word : name.all Lexeme.isWordPart) {c : Char}
    (other : Lexeme.isWordPart c = false) (blank : c ≠ ' ') (brace : c ≠ '{') :
    c ∉ openingLine name := by
  have keyword : c ∉ keyword := not_mem_of_isWordPart (by decide) other
  have here := not_mem_of_isWordPart word other
  rw [openingLine, List.mem_append, List.mem_cons, List.mem_append]
  simp [blank, brace, here, keyword]

theorem surrounds_openingLine {name : List Char} (word : name.all Lexeme.isWordPart) :
    Surrounds (openingLine name) ['}'] := by
  have slash : '/' ∉ openingLine name :=
    not_mem_openingLine word (by decide) (by decide) (by decide)
  refine ⟨⟨?head, ?last⟩, Text.IsTrimmed.singleton (by rfl), List.cons_ne_nil _ _,
    List.cons_ne_nil _ _, slash, by decide⟩
  case head =>
    intro c first
    cases first
    rfl
  case last =>
    intro c ending
    rw [openingLine_eq, List.getLast?_concat] at ending
    cases ending
    rfl

theorem codeLine?_of_isTrimmed {line : List Char} (trimmed : Text.IsTrimmed line) (some : line ≠ [])
    (plain : isDirective line = false) (uncommented : '/' ∉ line) :
    codeLine? line = .some line := by
  have uncut := @Text.cut?_of_not_mem ['/'] '/' line uncommented []
  rw [List.append_nil] at uncut
  have whole : withoutLineComment line = line := by
    rw [withoutLineComment, uncut]
    rfl
  have code := @codeLine?_of_plain line (by rwa [trimmed.trim_eq])
  rwa [trimmed.trim_eq, whole, if_neg some] at code

/-- The text that puts a header into a namespace. -/
def wrapped (name raw : List Char) : List Char :=
  openingLine name ++ '\n' :: (raw ++ '\n' :: ['}'])

theorem codeLines_wrapped {name : List Char} (word : name.all Lexeme.isWordPart) (raw : List Char) :
    codeLines (wrapped name raw) = openingLine name :: (codeLines raw ++ [['}']]) := by
  have surrounds := surrounds_openingLine word
  have feed : '\n' ∉ openingLine name :=
    not_mem_openingLine word (by decide) (by decide) (by decide)
  rw [wrapped, codeLines_append_feed feed, codeLines_append,
    codeLine?_of_isTrimmed surrounds.trimmed surrounds.some (by rw [openingLine_eq]; rfl)
      surrounds.plain]
  rfl

theorem normalize_wrapped {name raw code : List Char} (word : name.all Lexeme.isWordPart)
    (normal : normalize raw = .ok code) : Text.IsTrimmed code ∧
      normalize (wrapped name raw) = .ok (openingLine name ++ padded code ++ padded ['}']) := by
  have surrounds := surrounds_openingLine word
  obtain ⟨text, trimmed, lines⟩ := @exists_padded (codeLines raw) fun line mem => by
    obtain ⟨_, _, found⟩ := List.mem_filterMap.1 mem
    exact isTrimmed_of_codeLine? found
  rw [normalize_eq, lines, trim_padded trimmed] at normal
  obtain ⟨trimmed', found⟩ := surrounds.withoutComments_eq trimmed normal
  have whole : Text.IsTrimmed (openingLine name ++ padded text ++ padded ['}']) := by
    refine ⟨fun c head => surrounds.trimmed.head c ?_, fun c last => surrounds.trimmed'.last c ?_⟩
    · rwa [List.append_assoc, List.head?_append_of_ne_nil _ surrounds.some] at head
    · rw [padded_of_some surrounds.some', List.getLast?_append_of_ne_nil _ (List.cons_ne_nil _ _)]
        at last
      exact last
  refine ⟨trimmed', ?_⟩
  rw [normalize_eq, codeLines_wrapped word, List.flatMap_cons, List.flatMap_append, lines]
  change withoutComments (Text.trim (' ' :: (openingLine name ++ (padded text ++ padded ['}'])))) = _
  rw [← List.append_assoc, ← found]
  exact congrArg withoutComments whole.trim_eq

/-! ### The namespace of the wrapped header -/

theorem isWord_of_isWordPart {c : Char} (part : Lexeme.isWordPart c) : Text.isWord c := by
  simp only [Lexeme.isWordPart, Char.isAlphanum, Char.isAlpha, Char.isUpper, Char.isLower,
    Char.isDigit, Bool.or_eq_true, Bool.and_eq_true, decide_eq_true_eq, beq_iff_eq] at part
  have found : ∃ range ∈ [(0x30, 0x39), (0x41, 0x5A), (0x5F, 0x5F), (0x61, 0x7A)],
      range.1 ≤ c.toNat ∧ c.toNat ≤ range.2 := by
    obtain ((⟨low, high⟩ | ⟨low, high⟩) | ⟨low, high⟩) | rfl := part
    · exact ⟨(0x41, 0x5A), by simp, low, high⟩
    · exact ⟨(0x61, 0x7A), by simp, low, high⟩
    · exact ⟨(0x30, 0x39), by simp, low, high⟩
    · exact ⟨(0x5F, 0x5F), by simp, by decide, by decide⟩
  obtain ⟨range, mem, low, high⟩ := found
  have ascii : c.toNat < 0x1000 := by
    have top : ∀ range ∈ [(0x30, 0x39), (0x41, 0x5A), (0x5F, 0x5F), (0x61, 0x7A)],
        range.2 < 0x1000 := by decide
    exact Nat.lt_of_le_of_lt high (top range mem)
  rw [Text.isWord, if_pos ascii, List.any_eq_true]
  refine ⟨range, ?_, by simp [low, high]⟩
  exact List.IsPrefix.subset ⟨_, rfl⟩ mem

theorem isWord_blank : Text.isWord ' ' = false := by
  cbv

/-- A keyword that begins a text stands in front of those behind its first character. -/
theorem behindKeywords_cons (inWord : Bool) (c : Char) (text : List Char) :
    behindKeywords inWord (c :: text) = ((Text.after? keyword (c :: text)).filter fun behind =>
      !(inWord || behind.head?.any Text.isWord)).toList ++ behindKeywords (Text.isWord c) text := by
  rw [behindKeywords, show "namespace".toList = keyword from rfl]
  cases Text.after? keyword (c :: text) with
  | none => rw [Option.filter_none, Option.toList_none, List.nil_append]
  | some behind =>
      dsimp only
      rw [Option.filter_some]
      generalize (inWord || behind.head?.any Text.isWord) = within
      cases within
      · rfl
      · rfl

/-- The first part of a text and the rest have their keywords each, when a character between them
is part of no word. -/
theorem behindKeywords_append {sep : Char} (other : Text.isWord sep = false)
    (apart : sep ∉ keyword) (inWord : Bool) (text more : List Char) :
    behindKeywords inWord (text ++ sep :: more) =
      (behindKeywords inWord text).map (· ++ sep :: more) ++ behindKeywords false more := by
  induction text generalizing inWord with
  | nil =>
      have none : Text.after? keyword (sep :: more) = none := by
        rw [keyword_eq] at apart
        rw [keyword_eq, Text.after?, if_neg (Ne.symm (List.ne_of_not_mem_cons apart))]
      rw [List.nil_append, behindKeywords_cons, none, other]
      rfl
  | cons c text ih =>
      have here := Text.after?_append apart (c :: text) more
      rw [List.cons_append] at here
      rw [List.cons_append, behindKeywords_cons, behindKeywords_cons, here, ih, List.map_append,
        List.append_assoc]
      refine congrArg (· ++ _) ?_
      cases Text.after? keyword (c :: text) with
      | none => rw [Option.map_none, Option.filter_none, Option.toList_none, List.map_nil]
      | some behind =>
          have next :
              (behind ++ sep :: more).head?.any Text.isWord = behind.head?.any Text.isWord := by
            cases behind with
            | nil => simp [other]
            | cons d behind => rfl
          rw [Option.map_some, Option.filter_some, Option.filter_some, next]
          split
          · rfl
          · rfl

theorem behindKeywords_of_not_within {inWord : Bool} {text : List Char}
    (without : ¬ keyword <:+: text) : behindKeywords inWord text = [] := by
  induction text generalizing inWord with
  | nil => rfl
  | cons c text ih =>
      rw [behindKeywords_cons, Text.after?_of_not_infix without, ih (mt List.infix_cons without)]
      rfl

theorem behindKeywords_word {word : List Char} (within : word.all Lexeme.isWordPart) :
    behindKeywords true word = [] := by
  induction word with
  | nil => rfl
  | cons c word ih =>
      rw [List.all_cons, Bool.and_eq_true] at within
      rw [behindKeywords_cons, isWord_of_isWordPart within.1, ih within.2]
      cases Text.after? keyword (c :: word) <;> rfl

theorem behindKeywords_name {name : List Char} (word : name.all Lexeme.isWordPart)
    (other : name ≠ keyword) : behindKeywords false name = [] := by
  cases name with
  | nil => rfl
  | cons c rest =>
      have parts := word
      rw [List.all_cons, Bool.and_eq_true] at word
      rw [behindKeywords_cons, isWord_of_isWordPart word.1, behindKeywords_word word.2]
      cases found : Text.after? keyword (c :: rest) with
      | none => rfl
      | some behind =>
          have whole := Text.after?_eq_some_iff.1 found
          have goesOn : behind.head?.any Text.isWord := by
            cases behind with
            | nil => exact absurd (by rw [whole, List.append_nil]) other
            | cons d behind =>
                refine isWord_of_isWordPart (List.all_eq_true.1 parts d ?_)
                rw [whole]
                exact List.mem_append_right _ List.mem_cons_self
          rw [Option.filter_some, goesOn]
          rfl

theorem behindKeywords_of_extractNamespace {code body : List Char}
    (found : extractNamespace code = .ok (none, body)) :
    behindKeywords false code = [] ∧ body = code := by
  obtain ⟨_, whole, none⟩ | ⟨_, _, _, _, _, _, _, named, _⟩ := extractNamespace_cases found
  · exact ⟨none, whole⟩
  · cases named

end Header

/-! ### Balanced braces -/

/-- Braces are balanced when no prefix closes more than it opens and the text closes all. -/
structure Text.IsBalanced (text : List Char) : Prop where
  within : ∀ front, front <+: text → front.count '}' ≤ front.count '{'
  whole : text.count '}' = text.count '{'

/-- Text that closes no more than has been opened is passed, and changes the depth as it is left. -/
theorem Delimiter.close?_passed {text : List Char} {depth depth' : Nat}
    (within : ∀ front, front <+: text → front.count '}' ≤ depth + front.count '{')
    (left : depth' + text.count '}' = depth + text.count '{') (rest : List Char) :
    (bracket .curly).close? depth (text ++ rest) =
      ((bracket .curly).close? depth' rest).map fun (inside, after) => (text ++ inside, after) := by
  induction text generalizing depth with
  | nil =>
      obtain rfl : depth' = depth := by simpa using left
      simp
  | cons c text ih =>
      have opens : Text.after? (bracket .curly).opening (c :: (text ++ rest)) =
          if '{' = c then some (text ++ rest) else none := rfl
      have closes : Text.after? (bracket .curly).closing (c :: (text ++ rest)) =
          if '}' = c then some (text ++ rest) else none := rfl
      have front := fun front (prior : front <+: text) =>
        within (c :: front) (List.cons_prefix_cons.2 ⟨rfl, prior⟩)
      simp only [List.count_cons, beq_iff_eq] at front left
      rw [List.cons_append]
      by_cases opening : '{' = c
      · subst opening
        simp only [Char.reduceEq, ↓reduceIte, Nat.add_zero] at front left
        have later := @ih (depth + 1) (fun part prior => by have := front part prior; omega)
          (by omega)
        rw [close?_of_opens opens, later, Option.map_map]
        rfl
      · rw [if_neg opening] at opens
        by_cases closing : '}' = c
        · subst closing
          simp only [Char.reduceEq, ↓reduceIte, Nat.add_zero] at front left
          -- What closes here has been opened, so some region is left to close.
          have some := front [] List.nil_prefix
          obtain ⟨outer, rfl⟩ : ∃ outer, depth = outer + 1 :=
            ⟨depth - 1, by simp at some; omega⟩
          have later := @ih outer (fun part prior => by have := front part prior; omega) (by omega)
          rw [close?_of_closes opens closes]
          dsimp only
          rw [later, Option.map_map]
          rfl
        · rw [if_neg closing] at closes
          simp only [Ne.symm opening, Ne.symm closing, ↓reduceIte, Nat.add_zero] at front left
          rw [close?_of_other opens closes, ih front left, Option.map_map]
          rfl

namespace Header

theorem find?_wrapped {code : List Char} (trimmed : Text.IsTrimmed code)
    (balanced : Text.IsBalanced code) :
    Region.find? (.bracket .curly) (' ' :: '{' :: (padded code ++ padded ['}'])) =
      .ok (some ⟨[], code, []⟩) := by
  have blank : ∀ depth rest, (Delimiter.bracket .curly).close? depth (' ' :: rest) =
      ((Delimiter.bracket .curly).close? depth rest).map fun (inside, after) =>
        (' ' :: inside, after) := fun depth rest => Delimiter.close?_of_other (by rfl) (by rfl)
  have last : (Delimiter.bracket .curly).close? 0 ['}'] = some ([], []) :=
    Delimiter.close?_of_closes (by rfl) (by rfl)
  have inner := @Delimiter.close?_passed code 0 0 (by simpa using balanced.within)
    (by simpa using balanced.whole) (' ' :: ['}'])
  refine Region.find?_eq_some_iff.2 ⟨[' '], padded code ++ [' ', '}'], padded code ++ [' '], [],
    ?_, ?_, ?_⟩
  · simp [Text.cut?, Text.after?, Delimiter.opening, Bracket.opening, padded]
  · rw [padded]
    split
    · rw [List.nil_append, blank, last]
      rfl
    · rw [List.cons_append, blank, inner, blank, last]
      rfl
  · rw [Text.trim_append_blanks (by simp; rfl), trim_padded trimmed]
    rfl

theorem behindKeywords_wrapped {name code : List Char} (word : name.all Lexeme.isWordPart)
    (other : name ≠ keyword) (plain : behindKeywords false code = []) :
    behindKeywords false (openingLine name ++ padded code ++ padded ['}']) =
      [' ' :: (name ++ ' ' :: '{' :: (padded code ++ padded ['}']))] := by
  have whole : openingLine name ++ padded code ++ padded ['}'] =
      keyword ++ ' ' :: (name ++ ' ' :: ('{' :: padded code ++ ' ' :: ['}'])) := by
    simp [openingLine, padded]
  have here : behindKeywords false keyword = [[]] := by cbv
  have single : ∀ c, 'n' ≠ c → behindKeywords false [c] = [] := fun c initial => by
    rw [behindKeywords_cons, keyword_eq, Text.after?, if_neg initial]
    rfl
  have brace := single '{' (by decide)
  have parts := @behindKeywords_append ' ' isWord_blank (by decide)
  have inner : behindKeywords false ('{' :: padded code) = [] := by
    rw [padded]
    split
    · exact brace
    · rw [← List.singleton_append, parts, brace, plain]
      rfl
  rw [whole, parts, here, parts, behindKeywords_name word other, parts, inner,
    single '}' (by decide)]
  rfl

theorem namespaceName?_append {name behind : List Char} (named : isNamespaceName name)
    (ends : behind.head?.all fun next => !isNamePart next) :
    namespaceName? (' ' :: (name ++ behind)) = some (name, behind) := by
  rw [isNamespaceName, Bool.and_eq_true] at named
  obtain ⟨starts, word⟩ := named
  obtain ⟨c, rest, rfl⟩ : ∃ c rest, name = c :: rest := by
    cases name with
    | nil => cases starts
    | cons c rest => exact ⟨c, rest, rfl⟩
  have parts : (c :: rest).all isNamePart := by
    refine List.all_eq_true.2 fun d mem => ?_
    have part := List.all_eq_true.1 word d mem
    rw [Lexeme.isWordPart, Bool.or_eq_true] at part
    simp only [isNamePart, Bool.or_eq_true]
    exact Or.inl part
  have ink : Text.isBlank c = false :=
    ink_of_isWordPart (List.all_eq_true.1 word c List.mem_cons_self)
  have start : Text.trimLeft (' ' :: (c :: rest ++ behind)) = c :: rest ++ behind := by
    rw [Text.trimLeft, List.dropWhile_cons_of_pos (by rfl)]
    exact Text.trimLeft_of_head fun d head => by
      cases head
      exact ink
  obtain ⟨take, drop⟩ := Lexeme.takeWhile_of_head parts ends
  rw [namespaceName?, start, take, drop, if_pos]
  rw [Bool.and_eq_true, decide_eq_true_eq]
  exact ⟨Nat.lt_succ_self _, starts⟩

theorem extractNamespace_wrapped {name code : List Char} (named : isNamespaceName name)
    (other : name ≠ keyword) (trimmed : Text.IsTrimmed code) (balanced : Text.IsBalanced code)
    (plain : behindKeywords false code = []) :
    extractNamespace (openingLine name ++ padded code ++ padded ['}']) =
      .ok (some (String.ofList name), code) := by
  have word := (Bool.and_eq_true _ _ ▸ named : _ ∧ name.all Lexeme.isWordPart).2
  have called : namespaceName? (' ' :: (name ++ ' ' :: '{' :: (padded code ++ padded ['}']))) =
      some (name, ' ' :: '{' :: (padded code ++ padded ['}'])) :=
    namespaceName?_append named (by rw [List.head?_cons, Option.all_some]; decide)
  rw [extractNamespace, behindKeywords_wrapped word other plain]
  dsimp only
  rw [called]
  dsimp only
  rw [find?_wrapped trimmed balanced]
  rfl

/-- A namespace around a header adds its name to the header and changes nothing else. -/
theorem ofText_wrapped {name raw code : List Char} {declarations : List Declaration}
    {omissions : List Omission} (found : (ofText raw).result = .ok ⟨none, declarations, omissions⟩)
    (normal : normalize raw = .ok code) (balanced : Text.IsBalanced code)
    (named : isNamespaceName name) (other : name ≠ "namespace".toList) :
    (ofText (wrapped name raw)).result =
      .ok ⟨some (String.ofList name), declarations, omissions⟩ := by
  obtain ⟨_, body, normal', inside, declared⟩ := ofText_eq_ok_iff.1 found
  cases normal.symm.trans normal'
  obtain ⟨plain, rfl⟩ := behindKeywords_of_extractNamespace inside
  have word := (Bool.and_eq_true _ _ ▸ named : _ ∧ name.all Lexeme.isWordPart).2
  obtain ⟨trimmed, wrapping⟩ := normalize_wrapped word normal
  exact ofText_eq_ok_iff.2 ⟨_, _, wrapping,
    extractNamespace_wrapped named other trimmed balanced plain, declared⟩

theorem ofText_wrapped_lines : ∃ declared,
    (ofText "#pragma once\nint n; // P\nP /* Q */ z;".toList).result =
      .ok ⟨none, [.ofVariable declared], [⟨"z", "P"⟩]⟩ ∧
    normalize "#pragma once\nint n; // P\nP /* Q */ z;".toList = .ok "int n; P z;".toList ∧
    isNamespaceName "lib".toList ∧
    (ofText (wrapped "lib".toList "#pragma once\nint n; // P\nP /* Q */ z;".toList)).result =
      .ok ⟨some "lib", [.ofVariable declared], [⟨"z", "P"⟩]⟩ := by
  let declared : Variable := ⟨⟨.int, []⟩, "n", false⟩
  let later : List Token := [⟨.identifier "P", 7, [' ']⟩, ⟨.identifier "z", 9, []⟩,
    ⟨.punctuation .semicolon, 10, []⟩]
  let tokens : List Token := [⟨.keyword .int, 0, [' ']⟩, ⟨.identifier "n", 4, []⟩,
    ⟨.punctuation .semicolon, 5, [' ']⟩] ++ later
  have lexes : Lexed.ofText "int n; P z;".toList = .ok ⟨[], tokens⟩ := by cbv
  have here : Item.readPlain .top false .variableList tokens =
      .ok (.emitted (.ofVariable declared), later) := by rfl
  have behind : Item.readPlain .top false .variableList later = .ok (.omitted ⟨"z", "P"⟩, []) := by
    rfl
  have reads : Item.ReadsAll .top false tokens [.ofVariable declared] [⟨"z", "P"⟩] :=
    .cons (.plain (by rfl) rfl here) (.cons (.plain (by rfl) rfl behind) .nil)
  have normal : normalize "#pragma once\nint n; // P\nP /* Q */ z;".toList =
      .ok "int n; P z;".toList := by
    have comment : Region.find? .comment "int n; P /* Q */ z;".toList =
        .ok (some ⟨"int n; P".toList, "Q".toList, "z;".toList⟩) := by cbv
    have lines : Text.trim ((codeLines "#pragma once\nint n; // P\nP /* Q */ z;".toList).flatMap
        (' ' :: ·)) = "int n; P /* Q */ z;".toList := by cbv
    rw [normalize_eq, lines, withoutComments_of_find? comment]
    exact withoutComments_of_cut? (by cbv)
  have outside : extractNamespace "int n; P z;".toList = .ok (none, "int n; P z;".toList) := by cbv
  have found := (@ofText_eq_ok_iff _ ⟨none, _, _⟩).2 ⟨_, _, normal, outside,
    Parser.declarationsOf_eq_ok_iff.2 ⟨_, lexes, reads⟩⟩
  have balanced : Text.IsBalanced "int n; P z;".toList := by
    have within : ∀ front ∈ "int n; P z;".toList.inits, front.count '}' ≤ front.count '{' := by
      decide
    exact ⟨fun front prior => within front ((List.mem_inits _ _).2 prior), by decide⟩
  have named : isNamespaceName "lib".toList := by decide
  exact ⟨declared, found, normal, named, ofText_wrapped found normal balanced named (by decide)⟩

end Header

end PxdStub
