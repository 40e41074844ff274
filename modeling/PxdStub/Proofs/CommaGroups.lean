import PxdStub.Proofs.TypeExpressions

/-!
Groups between commas, as ranges of indices. The groups of a range and the commas between them make
up the range: a comma separates two groups just when no bracket is open in front of it. So a group
of a range whose brackets are nested has nested brackets too, and has no groups but itself.
-/

namespace PxdStub

/-! ### Ranges -/

/-- Tokens by their index. Behind the last one, every index has a token that stands for the end of
the text. -/
structure TokenTable where
  tokens : List Token
  ending : Token
  deriving DecidableEq, Repr

def TokenTable.get (table : TokenTable) (index : Nat) : Token :=
  table.tokens.getD index table.ending

/-- The indices from one up to another one, which is left out. -/
structure TokenRange where
  start : Nat
  stop : Nat
  deriving DecidableEq, Repr

namespace TokenRange

def indices (range : TokenRange) : List Nat :=
  List.range' range.start (range.stop - range.start)

def slice (table : TokenTable) (range : TokenRange) : List Token :=
  range.indices.map table.get

/-- Where runs of tokens stand when the first one begins at `start` and one token stands between two
of them. -/
def ofRuns (start : Nat) : List (List Token) → List TokenRange
  | [] => []
  | run :: more => ⟨start, start + run.length⟩ :: ofRuns (start + run.length + 1) more

/-- The groups of a range, each with its place. -/
def groups (table : TokenTable) (range : TokenRange) : List TokenRange :=
  ofRuns range.start (Token.groups (range.slice table))

/-- The indices between two ranges: the ends of all ranges but the last one. -/
def separators (parts : List TokenRange) : List Nat :=
  parts.dropLast.map stop

/-- How many brackets of the range are open in front of an index. A closing bracket that closes
nothing does not count. -/
def openBefore (table : TokenTable) (range : TokenRange) (index : Nat) : Nat :=
  (slice table ⟨range.start, index⟩).foldl Token.angledNesting 0

/-- Parts that stand one behind the other in a range, with a comma between two of them. The commas
of the range outside all brackets are just those. -/
structure Partitions (table : TokenTable) (range : TokenRange) (parts : List TokenRange) :
    Prop where
  first : parts.head?.map start = some range.start
  last : parts.getLast?.map stop = some range.stop
  ordered : ∀ part ∈ parts, part.start ≤ part.stop
  next : parts.IsChain fun part next => next.start = part.stop + 1
  covers : (parts.flatMap indices ++ separators parts).Perm range.indices
  separates : ∀ index, index ∈ separators parts ↔ index ∈ range.indices ∧
    (table.get index).lexeme = .punctuation .comma ∧ openBefore table range index = 0

theorem ofRuns_ne_nil (start : Nat) {runs : List (List Token)} (some : runs ≠ []) :
    ofRuns start runs ≠ [] := by
  obtain ⟨run, more, rfl⟩ := List.exists_cons_of_ne_nil some
  exact List.cons_ne_nil _ _

theorem head?_ofRuns {start : Nat} {runs : List (List Token)} {range : TokenRange}
    (head : range ∈ (ofRuns start runs).head?) : range.start = start := by
  cases runs with
  | nil => cases head
  | cons run more =>
      cases head
      rfl

theorem ordered_ofRuns {start : Nat} {runs : List (List Token)} :
    ∀ range ∈ ofRuns start runs, range.start ≤ range.stop := by
  induction runs generalizing start with
  | nil => exact fun _ mem => nomatch mem
  | cons run more ih => exact List.forall_mem_cons.2 ⟨Nat.le_add_right _ _, ih⟩

theorem isChain_ofRuns (start : Nat) (runs : List (List Token)) :
    (ofRuns start runs).IsChain fun range next => next.start = range.stop + 1 := by
  induction runs generalizing start with
  | nil => exact .nil
  | cons run more ih => exact List.isChain_cons.2 ⟨fun next head => head?_ofRuns head, ih _⟩

theorem separators_cons (range : TokenRange) {more : List TokenRange} (some : more ≠ []) :
    separators (range :: more) = range.stop :: separators more := by
  rw [separators, List.dropLast_cons_of_ne_nil some]
  rfl

theorem range'_eq_append (start front back : Nat) : List.range' start (front + (back + 1)) =
    List.range' start front ++ (start + front) :: List.range' (start + front + 1) back := by
  rw [← List.range'_append_1, List.range'_succ]

theorem indices_ofRun (start length : Nat) :
    indices ⟨start, start + length⟩ = List.range' start length := by
  rw [indices, Nat.add_sub_cancel_left]

end TokenRange

/-! ### Groups of tokens -/

namespace Token

theorem arguments_groupsAt (run : List Token) : BaseType.Arguments (groupsAt 0 run) run := by
  obtain ⟨groups, arguments⟩ := BaseType.exists_arguments run
  rwa [arguments.groupsAt_eq]

theorem groups_of_some {run : List Token} (some : run ≠ []) : groups run = groupsAt 0 run :=
  if_neg (by simpa using some)

theorem not_isComma_of_commasInside {before after : List Token} {token : Token} {depth : Nat}
    (inside : commasInside depth (before ++ token :: after))
    (outside : before.foldl angledNesting depth = 0) : token.lexeme ≠ .punctuation .comma := by
  rw [commasInside_append, Bool.and_eq_true, outside, commasInside, Bool.and_eq_true] at inside
  simpa using inside.2.1

end Token

namespace BaseType.Arguments

variable {groups : List (List Token)} {run : List Token}

theorem ne_nil (arguments : Arguments groups run) : groups ≠ [] := by
  cases arguments <;> exact List.cons_ne_nil _ _

theorem commasInside (arguments : Arguments groups run) :
    ∀ group ∈ groups, Token.commasInside 0 group := by
  induction arguments with
  | last inside => exact List.forall_mem_singleton.2 inside
  | cons inside _ _ _ ih => exact List.forall_mem_cons.2 ⟨inside, ih⟩

theorem getLast?_ofRuns (arguments : Arguments groups run) (start : Nat) :
    (TokenRange.ofRuns start groups).getLast?.map TokenRange.stop = some (start + run.length) := by
  induction arguments generalizing start with
  | last => rfl
  | @cons group more comma groups _ _ _ later ih =>
      have some := TokenRange.ofRuns_ne_nil (start + group.length + 1) later.ne_nil
      rw [TokenRange.ofRuns, List.getLast?_cons_of_ne_nil some, ih, List.length_append,
        List.length_cons]
      congr 1
      omega

/-- Every index of the run is in one group or stands between two. -/
theorem perm_ofRuns (arguments : Arguments groups run) (start : Nat) :
    ((TokenRange.ofRuns start groups).flatMap TokenRange.indices ++
      TokenRange.separators (TokenRange.ofRuns start groups)).Perm
        (List.range' start run.length) := by
  induction arguments generalizing start with
  | @last group =>
      rw [TokenRange.ofRuns, List.flatMap_cons, TokenRange.indices_ofRun]
      simp [TokenRange.ofRuns, TokenRange.separators]
  | @cons group more comma groups _ _ _ later ih =>
      have some := TokenRange.ofRuns_ne_nil (start + group.length + 1) later.ne_nil
      rw [TokenRange.ofRuns, TokenRange.separators_cons _ some, List.flatMap_cons,
        TokenRange.indices_ofRun, List.length_append, List.length_cons,
        TokenRange.range'_eq_append, List.append_assoc]
      exact (List.perm_middle.trans ((ih _).cons _)).append_left _

/-- The groups are the tokens at their places. -/
theorem map_slice_ofRuns (arguments : Arguments groups run) {table : TokenTable} {start : Nat}
    (placed : (List.range' start run.length).map table.get = run) :
    (TokenRange.ofRuns start groups).map (TokenRange.slice table) = groups := by
  induction arguments generalizing start with
  | last =>
      rw [TokenRange.ofRuns, List.map_cons, TokenRange.slice, TokenRange.indices_ofRun, placed]
      rfl
  | @cons group more comma groups _ _ _ _ ih =>
      rw [List.length_append, List.length_cons, TokenRange.range'_eq_append, List.map_append,
        List.map_cons] at placed
      obtain ⟨here, behind⟩ := List.append_inj placed (by simp)
      rw [TokenRange.ofRuns, List.map_cons, TokenRange.slice, TokenRange.indices_ofRun, here,
        ih (List.cons.inj behind).2]

/-- The separators are the commas outside all brackets. -/
theorem mem_separators_iff (arguments : Arguments groups run) (start index : Nat) :
    index ∈ TokenRange.separators (TokenRange.ofRuns start groups) ↔
      ∃ before comma after, run = before ++ comma :: after ∧ index = start + before.length ∧
        comma.lexeme = .punctuation .comma ∧ before.foldl Token.angledNesting 0 = 0 := by
  induction arguments generalizing start with
  | last inside =>
      constructor
      · exact fun mem => nomatch mem
      · rintro ⟨before, comma, after, rfl, _, isComma, outside⟩
        exact absurd isComma (Token.not_isComma_of_commasInside inside outside)
  | @cons group more comma groups inside level isComma later ih =>
      have passes : ∀ before : List Token,
          (group ++ comma :: before).foldl Token.angledNesting 0 =
            before.foldl Token.angledNesting 0 := by
        intro before
        rw [List.foldl_append, List.foldl_cons, level, Token.angledNesting, isComma]
      have some := TokenRange.ofRuns_ne_nil (start + group.length + 1) later.ne_nil
      rw [TokenRange.ofRuns, TokenRange.separators_cons _ some, List.mem_cons, ih]
      constructor
      · rintro (rfl | ⟨before, next, after, rfl, rfl, isNext, outside⟩)
        · exact ⟨group, comma, more, rfl, rfl, isComma, level⟩
        · refine ⟨group ++ comma :: before, next, after, by simp, ?_, isNext, ?_⟩
          · rw [List.length_append, List.length_cons]
            omega
          · rw [passes, outside]
      · rintro ⟨before, next, after, same, rfl, isNext, outside⟩
        -- Commas of the first group stand inside brackets, so this one ends it or comes later.
        obtain ⟨middle, rfl, behind⟩ | ⟨middle, rfl, behind⟩ := List.append_eq_append_iff.1 same
        · cases middle with
          | nil => exact .inl (by rw [List.append_nil])
          | cons token middle =>
              obtain ⟨rfl, rfl⟩ := List.cons.inj behind
              rw [passes] at outside
              refine .inr ⟨middle, next, after, rfl, ?_, isNext, outside⟩
              rw [List.length_append, List.length_cons]
              omega
        · cases middle with
          | nil => exact .inl (by rw [List.append_nil])
          | cons token middle =>
              obtain ⟨rfl, rfl⟩ := List.cons.inj behind
              exact absurd isNext (Token.not_isComma_of_commasInside inside outside)

end BaseType.Arguments

/-! ### Nested brackets -/

/-- Brackets of all four kinds. -/
def Lexeme.isBracket : Lexeme → Bool
  | .opening _ | .closing _ => true
  | _ => false

namespace Token

/-- Tokens in which every bracket is closed by one of its kind, behind tokens that are nested in the
same way. -/
inductive AreNested : List Token → Prop
  | nil : AreNested []
  | plain {token : Token} {rest : List Token} : token.lexeme.isBracket = false →
      AreNested rest → AreNested (token :: rest)
  | pair {opening closing : Token} {bracket : Bracket} {inside rest : List Token} :
      opening.lexeme = .opening bracket → AreNested inside →
      closing.lexeme = .closing bracket → AreNested rest →
      AreNested (opening :: (inside ++ closing :: rest))

theorem groupsAt_ne_nil (depth : Nat) (tokens : List Token) : groupsAt depth tokens ≠ [] := by
  cases tokens with
  | nil => exact List.cons_ne_nil _ _
  | cons token rest =>
      rw [groupsAt]
      split
      · exact List.cons_ne_nil _ _
      · split <;> exact List.cons_ne_nil _ _

/-- A token that is no comma outside brackets belongs to the first group. -/
theorem groupsAt_cons {depth : Nat} {token : Token}
    (inside : depth = 0 → token.lexeme ≠ .punctuation .comma) (rest : List Token) :
    groupsAt depth (token :: rest) =
      (groupsAt (angledNesting depth token) rest).modifyHead (token :: ·) := by
  obtain ⟨group, more, found⟩ :=
    List.exists_cons_of_ne_nil (groupsAt_ne_nil (angledNesting depth token) rest)
  rw [groupsAt, if_neg (by simpa using inside), found]
  rfl

theorem angledNesting_of_plain {depth : Nat} {token : Token}
    (plain : token.lexeme.isBracket = false) : angledNesting depth token = depth := by
  unfold angledNesting
  cases same : token.lexeme with
  | opening bracket | closing bracket => rw [same] at plain; cases plain
  | _ => rfl

/-- Brackets around tokens that stay in one group belong to the first group. -/
theorem groupsAt_pair {depth : Nat} {opening closing : Token} {bracket : Bracket}
    {inside : List Token} (opens : opening.lexeme = .opening bracket)
    (within : ∀ rest, groupsAt (depth + 1) (inside ++ rest) =
      (groupsAt (depth + 1) rest).modifyHead (inside ++ ·))
    (closes : closing.lexeme = .closing bracket) (rest : List Token) :
    groupsAt depth (opening :: (inside ++ closing :: rest)) =
      (groupsAt depth rest).modifyHead ((opening :: inside ++ [closing]) ++ ·) := by
  have deeper : angledNesting depth opening = depth + 1 := by rw [angledNesting, opens]
  have back : angledNesting (depth + 1) closing = depth := by
    rw [angledNesting, closes, Nat.add_sub_cancel]
  rw [groupsAt_cons (by simp [opens]), deeper, within, groupsAt_cons (by simp [closes]), back,
    List.modifyHead_modifyHead, List.modifyHead_modifyHead]
  congr 1
  funext group
  simp

/-- Nested tokens inside brackets are all in one group. -/
theorem AreNested.groupsAt_append {tokens : List Token} (nested : AreNested tokens) (depth : Nat)
    (rest : List Token) :
    groupsAt (depth + 1) (tokens ++ rest) =
      (groupsAt (depth + 1) rest).modifyHead (tokens ++ ·) := by
  induction nested generalizing depth rest with
  | nil =>
      obtain ⟨group, more, found⟩ := List.exists_cons_of_ne_nil (groupsAt_ne_nil (depth + 1) rest)
      rw [List.nil_append, found]
      rfl
  | @plain token tokens plain _ ih =>
      rw [List.cons_append, groupsAt_cons (by simp), angledNesting_of_plain plain, ih,
        List.modifyHead_modifyHead]
      rfl
  | @pair opening closing bracket inside tokens opens _ closes _ inner ih =>
      rw [List.cons_append, List.append_assoc, List.cons_append,
        groupsAt_pair opens (inner (depth + 1)) closes, ih, List.modifyHead_modifyHead]
      congr 1
      funext group
      simp

theorem forall_mem_modifyHead {holds : List Token → Prop} {change : List Token → List Token}
    {groups : List (List Token)} (kept : ∀ group, holds group → holds (change group))
    (all : ∀ group ∈ groups, holds group) : ∀ group ∈ groups.modifyHead change, holds group := by
  cases groups with
  | nil => exact all
  | cons first more =>
      obtain ⟨here, there⟩ := List.forall_mem_cons.1 all
      exact List.forall_mem_cons.2 ⟨kept first here, there⟩

/-- The groups of nested tokens are nested. -/
theorem AreNested.of_mem_groupsAt {tokens : List Token} (nested : AreNested tokens) :
    ∀ group ∈ groupsAt 0 tokens, AreNested group := by
  induction nested with
  | nil => exact List.forall_mem_singleton.2 .nil
  | @plain token tokens plain _ ih =>
      by_cases comma : token.lexeme = .punctuation .comma
      · rw [groupsAt, if_pos (by simp [comma])]
        exact List.forall_mem_cons.2 ⟨.nil, ih⟩
      · rw [groupsAt_cons fun _ => comma, angledNesting_of_plain plain]
        exact forall_mem_modifyHead (fun group nested => .plain plain nested) ih
  | @pair opening closing bracket inside tokens opens within closes _ _ ih =>
      rw [groupsAt_pair opens (within.groupsAt_append 0) closes]
      refine forall_mem_modifyHead (fun group nested => ?_) ih
      rw [List.append_assoc]
      exact .pair opens within closes nested

end Token

/-! ### The groups of a range -/

namespace TokenRange

variable {table : TokenTable} {range : TokenRange} {index : Nat}

theorem mem_indices : index ∈ range.indices ↔ range.start ≤ index ∧ index < range.stop := by
  rw [indices, List.mem_range'_1]
  omega

theorem length_slice : (range.slice table).length = range.stop - range.start := by
  rw [slice, List.length_map, indices, List.length_range']

theorem slice_ne_nil (some : range.start < range.stop) : range.slice table ≠ [] := by
  have length := @length_slice table range
  intro none
  rw [none, List.length_nil] at length
  omega

theorem slice_eq_append (mem : index ∈ range.indices) : range.slice table =
    slice table ⟨range.start, index⟩ ++ table.get index :: slice table ⟨index + 1, range.stop⟩ := by
  obtain ⟨order, below⟩ := mem_indices.1 mem
  have cut : range.indices =
      indices ⟨range.start, index⟩ ++ index :: indices ⟨index + 1, range.stop⟩ := by
    have whole : range.stop - range.start =
        index - range.start + (range.stop - (index + 1) + 1) := by omega
    rw [indices, whole, range'_eq_append, Nat.add_sub_cancel' order]
    rfl
  rw [slice, cut, List.map_append, List.map_cons]
  rfl

/-- A place in a range, told by the tokens in front of it or by its index. -/
theorem exists_split_iff :
    (∃ before comma after, range.slice table = before ++ comma :: after ∧
      index = range.start + before.length ∧ comma.lexeme = .punctuation .comma ∧
        before.foldl Token.angledNesting 0 = 0) ↔
      index ∈ range.indices ∧ (table.get index).lexeme = .punctuation .comma ∧
        openBefore table range index = 0 := by
  constructor
  · rintro ⟨before, comma, after, split, rfl, isComma, outside⟩
    have length := congrArg List.length split
    rw [length_slice, List.length_append, List.length_cons] at length
    have mem : range.start + before.length ∈ range.indices := mem_indices.2 (by omega)
    rw [slice_eq_append mem] at split
    obtain ⟨front, behind⟩ := List.append_inj split (by rw [length_slice, Nat.add_sub_cancel_left])
    rw [openBefore, front, (List.cons.inj behind).1]
    exact ⟨mem, isComma, outside⟩
  · rintro ⟨mem, isComma, outside⟩
    refine ⟨_, _, _, slice_eq_append mem, ?_, isComma, outside⟩
    rw [length_slice, Nat.add_sub_cancel' (mem_indices.1 mem).1]

/-- The groups of a range are its tokens between the commas outside all brackets. Nested brackets
stay together, and a group has no groups but itself. -/
theorem partitions_groups (some : range.start < range.stop) :
    Partitions table range (range.groups table) ∧
      (range.groups table).map (slice table) = Token.groups (range.slice table) ∧
      (Token.AreNested (range.slice table) →
        ∀ group ∈ range.groups table, Token.AreNested (group.slice table)) ∧
      ∀ group ∈ range.groups table, group.start < group.stop → group.groups table = [group] := by
  have split := Token.groups_of_some (@slice_ne_nil table range some)
  have arguments := Token.arguments_groupsAt (range.slice table)
  have places : (range.groups table).map (slice table) = Token.groups (range.slice table) := by
    rw [groups, split]
    refine arguments.map_slice_ofRuns ?_
    rw [length_slice]
    rfl
  have member : ∀ group ∈ range.groups table,
      group.slice table ∈ Token.groupsAt 0 (range.slice table) := fun group mem =>
    split ▸ places ▸ List.mem_map_of_mem mem
  refine ⟨?_, places, ?_, ?_⟩
  · rw [groups, split]
    refine ⟨?_, ?_, ordered_ofRuns, isChain_ofRuns _ _, ?_, fun index => ?_⟩
    · obtain ⟨group, more, found⟩ := List.exists_cons_of_ne_nil arguments.ne_nil
      rw [found]
      rfl
    · rw [arguments.getLast?_ofRuns, length_slice, Nat.add_sub_cancel' some.le]
    · rw [indices, ← @length_slice table]
      exact arguments.perm_ofRuns range.start
    · rw [arguments.mem_separators_iff, exists_split_iff]
  · exact fun nested group mem => nested.of_mem_groupsAt _ (member group mem)
  · intro group mem some
    have inside := arguments.commasInside _ (member group mem)
    rw [groups, Token.groups_of_some (slice_ne_nil some), Token.groupsAt_of_commasInside inside,
      ofRuns, ofRuns, length_slice, Nat.add_sub_cancel' some.le]

/-- The tokens of `(m<k, v>, , c)`, between the round brackets. -/
theorem partitions_groups_empty : ∃ table : TokenTable,
    table.tokens.map Token.lexeme = [.opening .round, .identifier "m", .opening .angle,
      .identifier "k", .punctuation .comma, .identifier "v", .closing .angle, .punctuation .comma,
      .punctuation .comma, .identifier "c", .closing .round] ∧
    1 < 10 ∧ Partitions table ⟨1, 10⟩ [⟨1, 7⟩, ⟨8, 8⟩, ⟨9, 10⟩] ∧
    Token.AreNested (slice table ⟨1, 10⟩) ∧
    (∀ group ∈ [(⟨1, 7⟩ : TokenRange), ⟨8, 8⟩, ⟨9, 10⟩], Token.AreNested (group.slice table)) ∧
    groups table ⟨1, 7⟩ = [⟨1, 7⟩] := by
  let token (lexeme : Lexeme) : Token := ⟨lexeme, 0, []⟩
  let inside : List Token :=
    [token (.identifier "k"), token (.punctuation .comma), token (.identifier "v")]
  let rest : List Token :=
    [token (.punctuation .comma), token (.punctuation .comma), token (.identifier "c")]
  let run : List Token := token (.identifier "m") :: token (.opening .angle) ::
    (inside ++ token (.closing .angle) :: rest)
  let table : TokenTable :=
    ⟨token (.opening .round) :: run ++ [token (.closing .round)], token (.punctuation .semicolon)⟩
  have split : groups table ⟨1, 10⟩ = [⟨1, 7⟩, ⟨8, 8⟩, ⟨9, 10⟩] := by decide
  have nested : Token.AreNested (slice table ⟨1, 10⟩) :=
    .plain rfl (@Token.AreNested.pair _ _ .angle inside rest rfl
      (.plain rfl (.plain rfl (.plain rfl .nil))) rfl
      (.plain rfl (.plain rfl (.plain rfl .nil))))
  obtain ⟨parts, _, kept, alone⟩ := @partitions_groups table ⟨1, 10⟩ (by decide)
  rw [split] at parts kept alone
  exact ⟨table, by decide, by decide, parts, nested, kept nested,
    alone ⟨1, 7⟩ (by decide) (by decide)⟩

end TokenRange

end PxdStub
