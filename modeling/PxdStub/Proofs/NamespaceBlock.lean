import PxdStub.Proofs.NamespaceWrapping

/-!
The namespace of a text. The text has the word `namespace` once, a name stands behind it, and the
text of the namespace is what the next brace encloses, whatever stands between the name and that
brace.
-/

namespace PxdStub

/-! ### The first mark and the brace that closes -/

theorem Text.cut?_eq_some_iff {c : Char} {text before behind : List Char} :
    cut? [c] text = some (before, behind) ↔ text = before ++ c :: behind ∧ c ∉ before := by
  constructor
  · intro found
    refine ⟨by rw [eq_of_cut? found, List.append_assoc]; rfl, ?_⟩
    intro mem
    apply not_infix_of_cut? found (List.cons_ne_nil c [])
    rw [List.dropLast_singleton, List.append_nil]
    exact (List.singleton_infix_iff c before).2 mem
  · rintro ⟨rfl, other⟩
    rw [cut?_of_not_mem other, cut?, after?, if_pos rfl]
    simp [after?]

/-- What is left open when a brace closes: the text in front closes all that it opens, and
`depth` more. -/
theorem Delimiter.count_of_close? {depth : Nat} {text inside after : List Char}
    (closed : (bracket .curly).close? depth text = some (inside, after)) :
    inside.count '}' = depth + inside.count '{' ∧
      ∀ front, front <+: inside → front.count '}' ≤ depth + front.count '{' := by
  induction text generalizing depth inside with
  | nil => simp [close?] at closed
  | cons c rest ih =>
      have opens : Text.after? (bracket .curly).opening (c :: rest) =
          if '{' = c then some rest else none := rfl
      have closes : Text.after? (bracket .curly).closing (c :: rest) =
          if '}' = c then some rest else none := rfl
      have behind : ∀ depth', depth' + (if c = '}' then 1 else 0) =
            depth + (if c = '{' then 1 else 0) →
          ((bracket .curly).close? depth' rest).map (fun parts => (c :: parts.1, parts.2)) =
            some (inside, after) →
          inside.count '}' = depth + inside.count '{' ∧
            ∀ front, front <+: inside → front.count '}' ≤ depth + front.count '{' := by
        intro depth' step later
        obtain ⟨⟨inner, _⟩, found, same⟩ := Option.map_eq_some_iff.1 later
        cases same
        obtain ⟨level, within⟩ := ih found
        simp only [List.count_cons, beq_iff_eq]
        refine ⟨by omega, ?_⟩
        intro front prior
        cases front with
        | nil => simp
        | cons d front =>
            obtain ⟨rfl, shorter⟩ := List.cons_prefix_cons.1 prior
            have bound := within front shorter
            simp only [List.count_cons, beq_iff_eq]
            omega
      by_cases opening : '{' = c
      · subst opening
        rw [close?_of_opens opens] at closed
        exact behind (depth + 1) (by simp) closed
      · rw [if_neg opening] at opens
        by_cases closing : '}' = c
        · subst closing
          rw [close?_of_closes opens closes] at closed
          cases depth with
          | zero =>
              cases closed
              simp
          | succ outer => exact behind outer (by simp) closed
        · rw [if_neg closing] at closes
          rw [close?_of_other opens closes] at closed
          exact behind depth (by simp [Ne.symm opening, Ne.symm closing]) closed

/-- A brace encloses balanced text, and all such text up to the brace that closes it. -/
theorem Delimiter.close?_eq_some_iff {text inside after : List Char} :
    (bracket .curly).close? 0 text = some (inside, after) ↔
      text = inside ++ '}' :: after ∧ Text.IsBalanced inside := by
  constructor
  · intro closed
    obtain ⟨level, within⟩ := count_of_close? closed
    rw [Nat.zero_add] at level
    refine ⟨by rw [eq_of_close? closed, List.append_assoc]; rfl, ⟨?_, level⟩⟩
    intro front prior
    have bound := within front prior
    rwa [Nat.zero_add] at bound
  · rintro ⟨rfl, balanced⟩
    have last : (bracket .curly).close? 0 ('}' :: after) = some ([], after) :=
      close?_of_closes (by rfl) (by rfl)
    have passed := @close?_passed inside 0 0 (by simpa using balanced.within)
      (by simpa using balanced.whole) ('}' :: after)
    rw [passed, last]
    simp

namespace Header

/-! ### The word `namespace` -/

theorem not_isWord_of_isBlank {c : Char} (blank : Text.isBlank c) : Text.isWord c = false := by
  let blanks : List Nat := [0x09, 0x0A, 0x0B, 0x0C, 0x0D, 0x20, 0x85, 0xA0, 0x1680, 0x2000, 0x2001,
    0x2002, 0x2003, 0x2004, 0x2005, 0x2006, 0x2007, 0x2008, 0x2009, 0x200A, 0x2028, 0x2029, 0x202F,
    0x205F, 0x3000]
  have every : ∀ code ∈ blanks, Text.isWord (Char.ofNat code) = false := by decide +kernel
  have mem : c.toNat ∈ blanks := by
    simp only [Text.isBlank, Bool.or_eq_true, Bool.and_eq_true, decide_eq_true_eq, beq_iff_eq]
      at blank
    simp only [blanks, List.mem_cons, List.not_mem_nil, or_false]
    omega
  have here := every c.toNat mem
  rwa [Char.ofNat_toNat] at here

/-- Whether `behind` is what stands behind the word `namespace` somewhere in a text. -/
def StandsBehind (behind code : List Char) : Prop :=
  ∃ before, code = before ++ keyword ++ behind ∧ before.getLast?.any Text.isWord = false ∧
    behind.head?.any Text.isWord = false

theorem mem_behindKeywords {inWord : Bool} {behind code : List Char} :
    behind ∈ behindKeywords inWord code ↔ ∃ before, code = before ++ keyword ++ behind ∧
      before.getLast?.elim inWord Text.isWord = false ∧
      behind.head?.any Text.isWord = false := by
  induction code generalizing inWord with
  | nil => simp [behindKeywords, keyword_eq]
  | cons c rest ih =>
      rw [behindKeywords_cons, List.mem_append, Option.mem_toList,
        Option.filter_eq_some_iff, Text.after?_eq_some_iff, Bool.not_eq_true',
        Bool.or_eq_false_iff, ih]
      constructor
      · rintro (⟨whole, apart⟩ | ⟨before, rfl, apart, ends⟩)
        · exact ⟨[], whole, apart⟩
        · refine ⟨c :: before, rfl, ?_, ends⟩
          rw [List.getLast?_cons]
          cases last : before.getLast? <;> rwa [last] at apart
      · rintro ⟨before, whole, apart, ends⟩
        cases before with
        | nil => exact .inl ⟨whole, apart, ends⟩
        | cons d before =>
            obtain ⟨rfl, same⟩ := List.cons.inj whole
            refine .inr ⟨before, same, ?_, ends⟩
            rw [List.getLast?_cons] at apart
            cases last : before.getLast? <;> rwa [last] at apart

theorem mem_behindKeywords_iff {behind code : List Char} :
    behind ∈ behindKeywords false code ↔ StandsBehind behind code := by
  rw [mem_behindKeywords]
  refine exists_congr fun before => ?_
  cases before.getLast? <;> rfl

theorem length_of_mem {inWord : Bool} {behind code : List Char}
    (mem : behind ∈ behindKeywords inWord code) :
    keyword.length + behind.length ≤ code.length := by
  obtain ⟨before, rfl, _, _⟩ := mem_behindKeywords.1 mem
  rw [List.length_append, List.length_append]
  omega

/-- Each keyword has another text behind it. -/
theorem nodup_behindKeywords (inWord : Bool) (code : List Char) :
    (behindKeywords inWord code).Nodup := by
  induction code generalizing inWord with
  | nil => exact List.nodup_nil
  | cons c rest ih =>
      rw [behindKeywords_cons]
      generalize here : (Text.after? keyword (c :: rest)).filter _ = first?
      cases first? with
      | none => exact ih _
      | some behind =>
          apply List.nodup_cons.2
          refine ⟨?_, ih _⟩
          intro later
          have whole := Text.after?_eq_some_iff.1 (Option.filter_eq_some_iff.1 here).1
          have size := congrArg List.length whole
          have bound := length_of_mem later
          rw [List.length_append, List.length_cons] at size
          omega

/-- There is one keyword when one text only stands behind a keyword. -/
theorem behindKeywords_eq_singleton_iff {behind code : List Char} :
    behindKeywords false code = [behind] ↔
      StandsBehind behind code ∧ ∀ other, StandsBehind other code → other = behind := by
  simp only [← mem_behindKeywords_iff]
  constructor
  · intro single
    simp [single]
  · rintro ⟨mem, only⟩
    apply List.perm_singleton.1
    rw [List.perm_ext_iff_of_nodup (nodup_behindKeywords _ _) (List.nodup_singleton _)]
    intro other
    rw [List.mem_singleton]
    constructor
    · exact only other
    · rintro rfl
      exact mem

/-! ### The name -/

theorem isWordPart_of_isNameStart {c : Char} (starts : isNameStart c) : Lexeme.isWordPart c := by
  rw [isNameStart, Bool.or_eq_true] at starts
  rw [Lexeme.isWordPart, Char.isAlphanum, Bool.or_eq_true, Bool.or_eq_true]
  exact starts.imp_left Or.inl

theorem isNamePart_of_isNameStart {c : Char} (starts : isNameStart c) : isNamePart c := by
  have part := isWordPart_of_isNameStart starts
  rw [Lexeme.isWordPart] at part
  rw [isNamePart, part]
  rfl

theorem namespaceName?_eq_some_iff {behind name rest : List Char} :
    namespaceName? behind = some (name, rest) ↔ ∃ margin, behind = margin ++ (name ++ rest) ∧
      margin ≠ [] ∧ (∀ c ∈ margin, Text.isBlank c) ∧ name.head?.any isNameStart ∧
      name.all isNamePart ∧ rest.head?.all fun next => !isNamePart next := by
  constructor
  · intro found
    obtain ⟨margin, blanks, whole⟩ := Text.exists_trimLeft behind
    rw [namespaceName?] at found
    generalize Text.trimLeft behind = start at whole found
    subst whole
    split at found
    · next starts =>
        cases found
        rw [Bool.and_eq_true, decide_eq_true_eq, List.length_append] at starts
        obtain ⟨shorter, starts⟩ := starts
        refine ⟨margin, by rw [List.takeWhile_append_dropWhile], ?_, blanks, ?_, List.all_takeWhile,
          ?_⟩
        · rintro rfl
          rw [List.length_nil] at shorter
          omega
        · cases start with
          | nil => cases starts
          | cons c start =>
              rw [List.takeWhile_cons_of_pos (isNamePart_of_isNameStart starts)]
              exact starts
        · have ends := List.head?_dropWhile_not isNamePart start
          cases next : (start.dropWhile isNamePart).head? with
          | none => rfl
          | some c =>
              rw [next] at ends
              rw [Option.all_some, ends]
              rfl
    · cases found
  · rintro ⟨margin, rfl, some, blanks, starts, parts, ends⟩
    obtain ⟨c, more, rfl⟩ : ∃ c more, name = c :: more := by
      cases name with
      | nil => cases starts
      | cons c more => exact ⟨c, more, rfl⟩
    have ink : Text.isBlank c = false := ink_of_isWordPart (isWordPart_of_isNameStart starts)
    have start : Text.trimLeft (margin ++ (c :: more ++ rest)) = c :: more ++ rest := by
      rw [Text.trimLeft, List.dropWhile_append_of_pos blanks]
      apply Text.trimLeft_of_head
      rintro _ ⟨⟩
      exact ink
    obtain ⟨take, drop⟩ := Lexeme.takeWhile_of_head parts ends
    rw [namespaceName?, start, take, drop, if_pos]
    have longer := List.length_pos_iff.2 some
    rw [Bool.and_eq_true, decide_eq_true_eq, @List.length_append _ margin]
    exact ⟨by omega, starts⟩

/-! ### The block -/

/-- A text with the parts from which its namespace is read. -/
structure NamespaceBlock where
  before : List Char
  margin : List Char
  name : List Char
  between : List Char
  inside : List Char
  after : List Char
  standing : before.getLast?.any Text.isWord = false
  blank : ∀ c ∈ margin, Text.isBlank c
  parted : margin ≠ []
  starts : name.head?.any isNameStart
  named : name.all isNamePart
  ended : between.head?.all fun next => !isNamePart next
  unopened : '{' ∉ between
  balanced : Text.IsBalanced inside

namespace NamespaceBlock

def behindName (block : NamespaceBlock) : List Char :=
  block.between ++ '{' :: (block.inside ++ '}' :: block.after)

def behind (block : NamespaceBlock) : List Char :=
  block.margin ++ (block.name ++ block.behindName)

def text (block : NamespaceBlock) : List Char :=
  block.before ++ keyword ++ block.behind

/-- Whether the braces follow the name at once. -/
def IsOwn (block : NamespaceBlock) : Prop :=
  ∀ c ∈ block.between, Text.isBlank c

/-- The keyword of a block stands in its text. -/
theorem standsBehind (block : NamespaceBlock) : StandsBehind block.behind block.text := by
  refine ⟨block.before, rfl, block.standing, ?_⟩
  obtain ⟨c, margin, whole⟩ := List.exists_cons_of_ne_nil block.parted
  have blank := block.blank c (by rw [whole]; exact List.mem_cons_self)
  rw [behind, whole]
  exact not_isWord_of_isBlank blank

theorem namespaceName?_behind (block : NamespaceBlock) :
    namespaceName? block.behind = some (block.name, block.behindName) := by
  refine namespaceName?_eq_some_iff.2
    ⟨block.margin, rfl, block.parted, block.blank, block.starts, block.named, ?_⟩
  have ended := block.ended
  rw [behindName]
  cases between : block.between with
  | nil => rfl
  | cons c rest => rwa [between] at ended

end NamespaceBlock

/-- The region of the first brace. -/
theorem find?_curly_eq_some_iff {text : List Char} {region : Region} :
    Region.find? (.bracket .curly) text = .ok (some region) ↔ ∃ between inside after,
      text = between ++ '{' :: (inside ++ '}' :: after) ∧ '{' ∉ between ∧
      Text.IsBalanced inside ∧
      region = ⟨Text.trim between, Text.trim inside, Text.trim after⟩ := by
  have marks : ∀ between behind : List Char,
      Text.cut? (Delimiter.bracket .curly).opening text = some (between, behind) ↔
        text = between ++ '{' :: behind ∧ '{' ∉ between :=
    fun _ _ => Text.cut?_eq_some_iff
  simp only [Region.find?_eq_some_iff, marks, Delimiter.close?_eq_some_iff]
  constructor
  · rintro ⟨between, _, inside, after, ⟨rfl, unopened⟩, ⟨rfl, balanced⟩, rfl⟩
    exact ⟨between, inside, after, rfl, unopened, balanced, rfl⟩
  · rintro ⟨between, inside, after, rfl, unopened, balanced, rfl⟩
    exact ⟨between, _, inside, after, ⟨rfl, unopened⟩, ⟨rfl, balanced⟩, rfl⟩

theorem extractNamespace_of_without {code : List Char}
    (without : ∀ behind, ¬ StandsBehind behind code) :
    extractNamespace code = .ok (none, code) := by
  have none : behindKeywords false code = [] := by
    apply List.eq_nil_iff_forall_not_mem.2
    intro behind mem
    exact without behind (mem_behindKeywords_iff.1 mem)
  rw [extractNamespace, none]

/-- A block is read when no other keyword stands in its text. -/
theorem NamespaceBlock.extractNamespace_text (block : NamespaceBlock)
    (only : ∀ behind, StandsBehind behind block.text → behind = block.behind) :
    extractNamespace block.text =
      .ok (some (String.ofList block.name), Text.trim block.inside) := by
  have single := behindKeywords_eq_singleton_iff.2 ⟨block.standsBehind, only⟩
  have here := find?_curly_eq_some_iff.2
    ⟨block.between, block.inside, block.after, rfl, block.unopened, block.balanced, rfl⟩
  rw [extractNamespace, single]
  dsimp only
  rw [block.namespaceName?_behind]
  dsimp only
  rw [NamespaceBlock.behindName, here]
  rfl

/-- Where a name and a region of braces follow a keyword, there is a block. -/
theorem NamespaceBlock.exists_of_find? {before behind name rest : List Char} {region : Region}
    (standing : before.getLast?.any Text.isWord = false)
    (called : namespaceName? behind = some (name, rest))
    (here : Region.find? (.bracket .curly) rest = .ok (some region)) :
    ∃ block : NamespaceBlock, block.name = name ∧ Text.trim block.inside = region.inside ∧
      block.text = before ++ keyword ++ behind ∧ block.behind = behind := by
  obtain ⟨margin, rfl, parted, blank, starts, named, ended⟩ := namespaceName?_eq_some_iff.1 called
  obtain ⟨between, inside, after, rfl, unopened, balanced, rfl⟩ := find?_curly_eq_some_iff.1 here
  have ended' : between.head?.all fun next => !isNamePart next := by
    cases between with
    | nil => rfl
    | cons c between => exact ended
  exact ⟨⟨before, margin, name, between, inside, after, standing, blank, parted, starts, named,
    ended', unopened, balanced⟩, rfl, rfl, rfl, rfl⟩

/-- Text without the word is its own body. Text with one is read when a name and a region of braces
follow, and its body is that region. -/
theorem extractNamespace_eq_ok_iff {code body : List Char} {name? : Option String} :
    extractNamespace code = .ok (name?, body) ↔
      (name? = none ∧ body = code ∧ ∀ behind, ¬ StandsBehind behind code) ∨
      ∃ block : NamespaceBlock, name? = some (String.ofList block.name) ∧
        body = Text.trim block.inside ∧ code = block.text ∧
        ∀ behind, StandsBehind behind code → behind = block.behind := by
  constructor
  · intro found
    obtain ⟨rfl, rfl, none⟩ | ⟨behind, name, rest, region, single, called, here, rfl, rfl⟩ :=
      extractNamespace_cases found
    · refine .inl ⟨rfl, rfl, fun behind stands => ?_⟩
      rw [← mem_behindKeywords_iff, none] at stands
      cases stands
    · obtain ⟨⟨before, rfl, standing, _⟩, only⟩ := behindKeywords_eq_singleton_iff.1 single
      obtain ⟨block, rfl, inside, whole, rfl⟩ :=
        NamespaceBlock.exists_of_find? standing called here
      exact .inr ⟨block, rfl, inside.symm, whole.symm, only⟩
  · rintro (⟨rfl, rfl, without⟩ | ⟨block, rfl, rfl, rfl, only⟩)
    · exact extractNamespace_of_without without
    · exact block.extractNamespace_text only

/-- The next brace is taken for that of the namespace, whatever it belongs to. -/
theorem extractNamespace_directive :
    extractNamespace "using namespace std; struct P { int a; };".toList =
      .ok (some "std", "int a;".toList) ∧
    ∀ block : NamespaceBlock, block.text = "using namespace std; struct P { int a; };".toList →
      ¬ block.IsOwn := by
  have words : behindKeywords false "using namespace std; struct P { int a; };".toList =
      [" std; struct P { int a; };".toList] := by decide +kernel
  have called : namespaceName? " std; struct P { int a; };".toList =
      some ("std".toList, "; struct P { int a; };".toList) := by cbv
  have first : "; struct P { int a; };".toList.head? = some ';' := by cbv
  refine ⟨by decide +kernel, ?_⟩
  -- The text has one keyword, so the name of any block is `std`, and a semicolon follows it.
  intro block whole own
  have mem := mem_behindKeywords_iff.2 block.standsBehind
  rw [whole, words, List.mem_singleton] at mem
  rw [← mem, block.namespaceName?_behind, Option.some_inj, Prod.mk.injEq] at called
  rw [← called.2, NamespaceBlock.behindName] at first
  cases between : block.between with
  | nil => simp [between] at first
  | cons c more =>
      have blank := own c (by rw [between]; exact List.mem_cons_self)
      rw [between] at first
      cases first
      cases blank

end Header

end PxdStub
