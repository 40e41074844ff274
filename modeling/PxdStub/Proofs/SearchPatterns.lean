import PxdStub.Proofs.PathComponents
import PxdStub.Proofs.SoundTrees

/-!
The pattern of a folder stands for the folder: what is searched is spelled from the root or from a
dot on, by the parts of its path up to the last slashes, and leads where the path leads.
-/

namespace PxdStub

namespace Search

variable {tree : FileTree}

/-! ### Escaped texts -/

/-- The pattern of one character. -/
def escapeChar (c : Char) : List Char :=
  if c ∈ ['?', '*', '[', ']'] then ['[', c, ']'] else [c]

theorem escape_cons (c : Char) (rest : List Char) :
    escape (c :: rest) = escapeChar c ++ escape rest := rfl

theorem escape_append (front rest : List Char) : escape (front ++ rest) = escape front ++ escape rest :=
  List.flatMap_append

/-- A character that means something in a pattern stands in brackets, and any other stands alone. -/
theorem escapeChar_cases (c : Char) :
    escapeChar c = ['[', c, ']'] ∧ c ≠ '/' ∨ escapeChar c = [c] ∧ c ≠ '[' := by
  unfold escapeChar
  split
  · next special =>
      refine .inl ⟨rfl, ?_⟩
      rintro rfl
      revert special
      decide
  · next plain =>
      refine .inr ⟨rfl, ?_⟩
      rintro rfl
      exact plain (by decide)

theorem unescape_cons {c : Char} (plain : c ≠ '[') (rest : List Char) :
    unescape (c :: rest) = c :: unescape rest := by
  conv_lhs => unfold unescape
  split
  · next same => exact absurd (List.cons.inj same).1 plain
  · next same => rw [(List.cons.inj same).1, (List.cons.inj same).2]
  · next same => cases same

theorem unescape_escape (text : List Char) : unescape (escape text) = text := by
  induction text with
  | nil => rfl
  | cons c rest ih =>
      rw [escape_cons]
      rcases escapeChar_cases c with ⟨bracketed, -⟩ | ⟨alone, plain⟩
      · rw [bracketed]
        exact congrArg _ ih
      · rw [alone, List.singleton_append, unescape_cons plain, ih]

/-- A slash stands for itself, so the parts of a text are escaped one by one. -/
theorem partsOf_escape (text : List Char) :
    Path.partsOf (escape text) = (Path.partsOf text).map escape := by
  induction text with
  | nil => rfl
  | cons c rest ih =>
      by_cases slash : c = '/'
      · subst slash
        exact congrArg _ ih
      · obtain ⟨part, more, parts, both⟩ := Path.partsOf_cons slash rest
        have inside : '/' ∉ escapeChar c := by
          rcases escapeChar_cases c with ⟨bracketed, -⟩ | ⟨alone, -⟩
          · simp [bracketed, Ne.symm slash]
          · simp [alone, Ne.symm slash]
        rw [parts, List.map_cons] at ih
        rw [both, escape_cons, Path.partsOf_append_of_not_mem inside ih]
        rfl

/-! ### Slashes at the end -/

theorem dropEndSlashes_cons (c : Char) (rest : List Char) :
    dropEndSlashes (c :: rest) =
      if dropEndSlashes rest = [] then dropEndSlashes [c] else c :: dropEndSlashes rest := by
  unfold dropEndSlashes
  rw [List.reverse_cons, List.dropWhile_append]
  by_cases none : rest.reverse.dropWhile (fun c => decide (c = '/')) = []
  · simp [none]
  · simp [none]

theorem dropEndSlashes_slash (text : List Char) :
    dropEndSlashes (text ++ ['/']) = dropEndSlashes text := by
  simp [dropEndSlashes]

theorem dropEndSlashes_of_ne {c : Char} (inside : c ≠ '/') (text : List Char) :
    dropEndSlashes (text ++ [c]) = text ++ [c] := by
  simp [dropEndSlashes, inside]

theorem dropEndSlashes_escape (text : List Char) :
    dropEndSlashes (escape text) = escape (dropEndSlashes text) := by
  induction text using List.reverseRecOn with
  | nil => rfl
  | append_singleton front c ih =>
      have last : escape [c] = escapeChar c := List.append_nil _
      rw [escape_append, last]
      by_cases slash : c = '/'
      · subst slash
        exact (dropEndSlashes_slash _).trans (ih.trans (congrArg _ (dropEndSlashes_slash _).symm))
      · rw [dropEndSlashes_of_ne slash, escape_append, last]
        rcases escapeChar_cases c with ⟨bracketed, -⟩ | ⟨alone, -⟩
        · have split : escape front ++ ['[', c, ']'] = escape front ++ ['[', c] ++ [']'] := by simp
          rw [bracketed, split, dropEndSlashes_of_ne (by decide)]
        · rw [alone, dropEndSlashes_of_ne slash]

theorem exists_endSlashes (text : List Char) :
    ∃ count, text = dropEndSlashes text ++ List.replicate count '/' := by
  induction text using List.reverseRecOn with
  | nil => exact ⟨0, rfl⟩
  | append_singleton front c ih =>
      by_cases slash : c = '/'
      · subst slash
        obtain ⟨count, split⟩ := ih
        refine ⟨count + 1, ?_⟩
        rw [dropEndSlashes_slash, List.replicate_succ', ← List.append_assoc, ← split]
      · exact ⟨0, by rw [dropEndSlashes_of_ne slash, List.replicate_zero, List.append_nil]⟩

theorem partsOf_slashes (count : Nat) :
    Path.partsOf (List.replicate count '/') = List.replicate (count + 1) [] := by
  induction count with
  | zero => rfl
  | succ count ih => exact congrArg _ ih

/-- The parts of a text up to its last slashes. -/
def partsToSpell (text : List Char) : List (List Char) :=
  if dropEndSlashes text = [] then [] else Path.partsOf (dropEndSlashes text)

theorem exists_emptyEnds (text : List Char) :
    ∃ ends, Path.partsOf text = partsToSpell text ++ ends ∧ ∀ part ∈ ends, part = [] := by
  obtain ⟨count, split⟩ := exists_endSlashes text
  unfold partsToSpell
  split_ifs with none
  · rw [none, List.nil_append] at split
    refine ⟨Path.partsOf text, rfl, ?_⟩
    rw [split, partsOf_slashes]
    exact fun part inside => List.eq_of_mem_replicate inside
  · cases count with
    | zero =>
        rw [List.replicate_zero, List.append_nil] at split
        exact ⟨[], by rw [← split, List.append_nil], nofun⟩
    | succ count =>
        refine ⟨List.replicate (count + 1) [], ?_, fun part inside => List.eq_of_mem_replicate inside⟩
        conv_lhs => rw [split]
        rw [List.replicate_succ, Path.partsOf_append, partsOf_slashes]

theorem not_mem_of_mem_partsToSpell {text part : List Char} (inside : part ∈ partsToSpell text) :
    '/' ∉ part := by
  obtain ⟨ends, split, -⟩ := exists_emptyEnds text
  exact Path.not_mem_of_mem_partsOf (split ▸ List.mem_append_left _ inside)


/-! ### The folder of a pattern -/

/-- The parts in front of the last two of a pattern are taken one after the other. -/
theorem folder?_eq {pattern text : List Char} {start : String} {parts : List (List Char)}
    (lead : (if pattern.head? = some '/' then ("/", pattern.drop 1) else (".", pattern)) =
      (start, text))
    (ends : Path.partsOf text = parts ++ ["**".toList, "*.hpp".toList]) :
    folder? pattern = (parts.map unescape).foldlM extend? (Path.ofString start) := by
  unfold folder?
  rw [lead]
  simp [ends]

theorem map_unescape_partsOf_escape (text : List Char) :
    (Path.partsOf (escape text)).map unescape = Path.partsOf text := by
  rw [partsOf_escape, List.map_map]
  exact (List.map_congr_left fun part _ => unescape_escape part).trans (List.map_id _)

theorem partsOf_ending : Path.partsOf "**/*.hpp".toList = ["**".toList, "*.hpp".toList] := by
  decide

theorem folder?_pattern_of_isAbsolute {folder : Path} (absolute : folder.isAbsolute) :
    folder? (pattern folder) =
      (partsToSpell (folder.text.drop 1)).foldlM extend? (Path.ofString "/") := by
  obtain ⟨rest, whole⟩ : ∃ rest, folder.text = '/' :: rest :=
    List.head?_eq_some_iff.1 (by simpa [Path.isAbsolute] using absolute)
  rw [pattern, whole, dropEndSlashes_escape, dropEndSlashes_cons, List.drop_one, List.tail_cons,
    partsToSpell]
  split_ifs with none
  · have ends : Path.partsOf "**/*.hpp".toList = [] ++ ["**".toList, "*.hpp".toList] := partsOf_ending
    exact folder?_eq (if_pos rfl) ends
  · rw [← map_unescape_partsOf_escape]
    refine folder?_eq (if_pos rfl) ?_
    exact (Path.partsOf_append _ _).trans (congrArg _ partsOf_ending)

theorem folder?_pattern_of_relative {folder : Path} (relative : folder.isAbsolute = false)
    (filled : folder.text ≠ []) :
    folder? (pattern folder) =
      (partsToSpell folder.text).foldlM extend? (Path.ofString ".") := by
  obtain ⟨c, rest, whole⟩ := List.exists_cons_of_ne_nil filled
  have inside : c ≠ '/' := by
    rintro rfl
    simp [Path.isAbsolute, whole] at relative
  have kept : ∃ more, dropEndSlashes folder.text = c :: more := by
    rw [whole, dropEndSlashes_cons]
    split_ifs
    · exact ⟨[], dropEndSlashes_of_ne inside []⟩
    · exact ⟨_, rfl⟩
  obtain ⟨more, kept⟩ := kept
  rw [pattern, dropEndSlashes_escape, partsToSpell, kept, if_neg (List.cons_ne_nil c more),
    ← map_unescape_partsOf_escape]
  refine folder?_eq (if_neg ?_) ((Path.partsOf_append _ _).trans (congrArg _ partsOf_ending))
  rcases escapeChar_cases c with ⟨bracketed, -⟩ | ⟨alone, -⟩
  · simp [escape_cons, bracketed]
  · simp [escape_cons, alone, inside]

/-! ### Extended paths -/

theorem ofPart_ne_here (part : List Char) : Component.ofPart part ≠ .here := by
  unfold Component.ofPart
  split <;> simp

theorem isIdle_of_components {path : Path} (dot : path.components = [.here]) :
    ∀ part ∈ Path.partsOf path.text, Path.isIdle part := by
  have none : path.names = [] := by
    rw [Path.components_eq] at dot
    cases names : path.names with
    | nil => rfl
    | cons name more =>
        rw [names, List.map_cons] at dot
        rcases Path.leading_cases (Path.partsOf path.text) with first | first | first
        · rw [first, List.nil_append] at dot
          exact absurd (List.cons.inj dot).1 (ofPart_ne_here name)
        · rw [first] at dot
          cases dot
        · rw [first] at dot
          cases dot
  intro part inside
  by_contra named
  have kept : part ∈ path.names := List.mem_filter.2 ⟨inside, by simpa using named⟩
  rw [none] at kept
  cases kept

/-- An extended path leads where the path leads and then the parts behind it. -/
theorem walk_extend (tree : FileTree) (path : Path) {text : List Char}
    (relative : Path.isAbsolute ⟨text⟩ = false) :
    tree.walk [] (Path.partsOf (extend path text).text) =
      tree.walk [] (Path.partsOf path.text ++ Path.partsOf text) := by
  have more := Path.partsOf_ne_nil text
  unfold extend
  split
  · next dot => exact (FileTree.walk_behind_idle tree [] (isIdle_of_components dot) more).symm
  · obtain ⟨before, ends, joined, empty, alone⟩ := Path.partsOf_join_relative path relative
    have idle : ∀ part ∈ ends, Path.isIdle part := fun part inside => by
      rw [empty part inside]
      rfl
    rw [joined, alone, List.append_assoc, FileTree.walk_append, FileTree.walk_append]
    simp only [FileTree.walk_behind_idle tree _ idle more]

theorem mem_extend {path : Path} {text : List Char} {c : Char}
    (inside : c ∈ (extend path text).text) : c = '/' ∨ c ∈ path.text ∨ c ∈ text := by
  unfold extend Path.join at inside
  split_ifs at inside <;> simp only [List.mem_append, List.mem_cons] at inside <;> tauto

theorem extend_ne_nil (path : Path) {text : List Char} (some : text ≠ []) :
    (extend path text).text ≠ [] := by
  unfold extend Path.join
  split_ifs <;> simp [some]

theorem extend?_eq_some {path next : Path} {part : List Char}
    (extended : extend? path part = some next) : next = extend path part ∧ next.text ≠ [] := by
  unfold extend? at extended
  dsimp only at extended
  split_ifs at extended with empty
  cases extended
  exact ⟨rfl, empty⟩

theorem walk_foldlM {parts : List (List Char)} {start folder : Path}
    (whole : ∀ part ∈ parts, '/' ∉ part) (spelled : parts.foldlM extend? start = some folder) :
    tree.walk [] (Path.partsOf folder.text) = tree.walk [] (Path.partsOf start.text ++ parts) := by
  induction parts generalizing start with
  | nil =>
      cases spelled
      rw [List.append_nil]
  | cons part rest ih =>
      obtain ⟨first, others⟩ := List.forall_mem_cons.1 whole
      obtain ⟨next, extended, more⟩ := Option.bind_eq_some_iff.1 spelled
      obtain ⟨rfl, -⟩ := extend?_eq_some extended
      rw [ih others more, FileTree.walk_append,
        walk_extend tree start (Path.isAbsolute_of_not_mem first), Path.partsOf_of_not_mem first,
        ← FileTree.walk_append, List.append_assoc]
      rfl

theorem ne_nil_of_foldlM {parts : List (List Char)} {start folder : Path} (some : start.text ≠ [])
    (spelled : parts.foldlM extend? start = .some folder) : folder.text ≠ [] := by
  induction parts generalizing start with
  | nil =>
      cases spelled
      exact some
  | cons part rest ih =>
      obtain ⟨next, extended, more⟩ := Option.bind_eq_some_iff.1 spelled
      exact ih (extend?_eq_some extended).2 more

theorem mem_foldlM {parts : List (List Char)} {start folder : Path} {c : Char}
    (spelled : parts.foldlM extend? start = some folder) (inside : c ∈ folder.text) :
    c = '/' ∨ c ∈ start.text ∨ ∃ part ∈ parts, c ∈ part := by
  induction parts generalizing start with
  | nil =>
      cases spelled
      exact .inr (.inl inside)
  | cons part rest ih =>
      obtain ⟨next, extended, more⟩ := Option.bind_eq_some_iff.1 spelled
      obtain ⟨rfl, -⟩ := extend?_eq_some extended
      rcases ih more with slash | first | ⟨other, among, later⟩
      · exact .inl slash
      · rcases mem_extend first with slash | before | here
        · exact .inl slash
        · exact .inr (.inl before)
        · exact .inr (.inr ⟨part, .head _, here⟩)
      · exact .inr (.inr ⟨other, .tail _ among, later⟩)

/-! ### Paths that are not spelled -/

/-- From a path that is more than a dot every part leads on. -/
theorem isSome_foldlM {parts : List (List Char)} {start : Path} (some : start.text ≠ [])
    (more : start.components ≠ [.here]) (whole : ∀ part ∈ parts, '/' ∉ part) :
    (parts.foldlM extend? start).isSome := by
  induction parts generalizing start with
  | nil => rfl
  | cons part rest ih =>
      obtain ⟨first, others⟩ := List.forall_mem_cons.1 whole
      have extended : extend start part = start.join ⟨part⟩ := if_neg more
      have filled : (start.join ⟨part⟩).text ≠ [] := by
        unfold Path.join
        simp only [Path.isAbsolute_of_not_mem first, Bool.false_or, List.isEmpty_iff, some,
          if_false]
        split_ifs <;> simp [some]
      rw [List.foldlM_cons, extend?, extended, if_neg filled]
      refine ih filled ?_ others
      rw [Path.components_join some (Path.isAbsolute_of_not_mem first)]
      intro dot
      rcases List.append_eq_singleton_iff.1 dot with ⟨-, named⟩ | ⟨same, -⟩
      · obtain ⟨name, -, here⟩ := List.mem_map.1 (named ▸ List.mem_singleton_self Component.here)
        exact ofPart_ne_here name here
      · exact more same

/-- From a dot nothing leads on when an empty part stands behind dots alone. -/
theorem foldlM_dot_eq_none_iff {parts : List (List Char)} (whole : ∀ part ∈ parts, '/' ∉ part) :
    parts.foldlM extend? (Path.ofString ".") = none ↔
      ∃ dots rest, parts = List.replicate dots ['.'] ++ [] :: rest := by
  induction parts with
  | nil => simp
  | cons part rest ih =>
      obtain ⟨first, others⟩ := List.forall_mem_cons.1 whole
      rw [List.foldlM_cons]
      by_cases dot : part = ['.']
      · subst dot
        show rest.foldlM extend? (Path.ofString ".") = none ↔ _
        rw [ih others]
        constructor
        · rintro ⟨dots, more, rfl⟩
          exact ⟨dots + 1, more, rfl⟩
        · rintro ⟨dots, more, same⟩
          cases dots with
          | zero => cases same
          | succ dots => exact ⟨dots, more, (List.cons.inj same).2⟩
      · by_cases empty : part = []
        · subst empty
          exact ⟨fun _ => ⟨0, rest, rfl⟩, fun _ => rfl⟩
        · have extended : extend? (Path.ofString ".") part = some ⟨part⟩ := if_neg empty
          have named : ¬Path.isIdle part := by simp [Path.isIdle, dot, empty]
          have more : Path.components ⟨part⟩ ≠ [.here] := by
            rw [Path.components_eq, Path.names, Path.partsOf_of_not_mem first,
              Path.leading_cons_of_not_isIdle named, Path.namesIn_cons_of_not_isIdle named]
            intro here
            exact ofPart_ne_here part (List.cons.inj here).1
          have leads := Option.isSome_iff_ne_none.1 (isSome_foldlM empty more others)
          rw [extended]
          refine ⟨fun none => absurd none leads, ?_⟩
          rintro ⟨dots, more, same⟩
          cases dots with
          | zero => exact absurd (List.cons.inj same).1 empty
          | succ dots => exact absurd (List.cons.inj same).1 dot

/-- A pattern has no folder when the path begins with dots, several slashes stand behind the last of
them, and it goes on. -/
theorem folder?_pattern_eq_none_iff {argument : Path} (filled : argument.text ≠ []) :
    folder? (pattern argument) = none ↔ argument.isAbsolute = false ∧ ∃ dots rest,
      partsToSpell argument.text = List.replicate (dots + 1) ['.'] ++ [] :: rest := by
  by_cases absolute : argument.isAbsolute
  · have leads : ((partsToSpell (argument.text.drop 1)).foldlM extend?
        (Path.ofString "/")).isSome :=
      isSome_foldlM (by decide) (by decide) fun _ => not_mem_of_mem_partsToSpell
    rw [folder?_pattern_of_isAbsolute absolute]
    refine ⟨fun none => absurd none (Option.isSome_iff_ne_none.1 leads), ?_⟩
    rintro ⟨relative, -⟩
    rw [absolute] at relative
    cases relative
  · have relative : argument.isAbsolute = false := by simpa using absolute
    rw [folder?_pattern_of_relative relative filled,
      foldlM_dot_eq_none_iff fun _ => not_mem_of_mem_partsToSpell]
    constructor
    · rintro ⟨dots, rest, parts⟩
      refine ⟨relative, ?_⟩
      cases dots with
      | succ dots => exact ⟨dots, rest, parts⟩
      | zero =>
          -- A relative path does not begin with an empty part.
          exfalso
          obtain ⟨ends, split, -⟩ := exists_emptyEnds argument.text
          obtain ⟨c, text, whole⟩ := List.exists_cons_of_ne_nil filled
          have inside : c ≠ '/' := by
            rintro rfl
            exact absolute (by simp [Path.isAbsolute, whole])
          obtain ⟨first, more, -, both⟩ := Path.partsOf_cons inside text
          rw [parts, whole, both] at split
          cases (List.cons.inj split).1
    · rintro ⟨-, dots, rest, parts⟩
      exact ⟨dots + 1, rest, parts⟩

/-! ### Where a folder leads -/

/-- A spelling leads to the folder that is spelled. -/
structure Spells (tree : FileTree) (folder : Path) (top : Address) : Prop where
  filled : folder.text ≠ []
  leads : tree.walk [] (Path.partsOf folder.text) = .ok top
  noNul : '\x00' ∉ folder.text

/-- A folder is spelled from the top on, by the parts of the path up to its last slashes. -/
theorem folder?_pattern_eq {argument : Path} (filled : argument.text ≠ []) :
    ∃ start lead parts ends, folder? (pattern argument) = parts.foldlM extend? start ∧
      Path.partsOf argument.text = lead ++ (parts ++ ends) ∧ start.text ≠ [] ∧
      (∀ part ∈ Path.partsOf start.text, Path.isIdle part) ∧ '\x00' ∉ start.text ∧
      (∀ part ∈ lead, Path.isIdle part) ∧ ∀ part ∈ ends, part = [] := by
  by_cases absolute : argument.isAbsolute
  · obtain ⟨rest, whole⟩ : ∃ rest, argument.text = '/' :: rest :=
      List.head?_eq_some_iff.1 (by simpa [Path.isAbsolute] using absolute)
    obtain ⟨ends, split, empty⟩ := exists_emptyEnds rest
    refine ⟨Path.ofString "/", [[]], partsToSpell rest, ends, ?_, ?_, by decide, by decide,
      by decide, by decide, empty⟩
    · rw [folder?_pattern_of_isAbsolute absolute, whole]
      rfl
    · rw [whole, Path.partsOf_slash, ← split]
      rfl
  · obtain ⟨ends, split, empty⟩ := exists_emptyEnds argument.text
    exact ⟨Path.ofString ".", [], partsToSpell argument.text, ends,
      folder?_pattern_of_relative (by simpa using absolute) filled, split, by decide, by decide,
      by decide, by simp, empty⟩

theorem spells_of_folder? {argument folder : Path} {top : Address}
    (located : tree.locate argument = .ok top)
    (spelled : folder? (pattern argument) = some folder) : Spells tree folder top := by
  obtain ⟨filled, short, walked⟩ := FileTree.locate_eq_ok_iff.1 located
  obtain ⟨start, lead, parts, ends, same, split, begun, idle, noNul, first, empty⟩ :=
    folder?_pattern_eq filled
  rw [same] at spelled
  rw [split] at walked
  have inside : ∀ part ∈ parts, part ∈ Path.partsOf argument.text := fun part among => by
    simp [split, among]
  have top_folder : tree.entry? [] = some .folder := rfl
  -- The slashes at the end of the path do not lead anywhere else.
  have toTop : tree.walk [] parts = .ok top := by
    rw [FileTree.walk_append, FileTree.walk_idle top_folder first] at walked
    have behind : tree.walk [] (parts ++ ends) = .ok top := walked
    rw [FileTree.walk_append] at behind
    obtain ⟨there, down, stays⟩ := Except.bind_ok_iff.1 behind
    have none : Path.namesIn ends = [] := Path.namesIn_of_idle fun part among => by
      rw [empty part among]
      rfl
    have noUp : ['.', '.'] ∉ ends := fun up => by cases empty _ up
    have last := FileTree.walk_eq_names noUp stays
    rw [none, List.append_nil] at last
    rwa [last]
  refine ⟨ne_nil_of_foldlM begun spelled, ?_, ?_⟩
  · rw [walk_foldlM (fun part among => Path.not_mem_of_mem_partsOf (inside part among)) spelled,
      FileTree.walk_append, FileTree.walk_idle top_folder idle]
    exact toTop
  · intro nul
    rcases mem_foldlM spelled nul with slash | before | ⟨part, among, within⟩
    · cases slash
    · exact noNul before
    · exact short.1 ((Path.infix_of_mem_partsOf (inside part among)).subset within)

/-- Where a path to what stands below a folder leads when it is not too long. -/
theorem locate_below (sound : tree.IsSound) {folder : Path} {top names : Address}
    (spells : Spells tree folder top) (some : names ≠ [])
    (valid : ∀ name ∈ names, FileTree.IsName name) (there : tree.entry? (top ++ names) ≠ none)
    {address : Address} : tree.locate (below folder names) = .ok address ↔
      Text.size (below folder names).text ≤ FileTree.maxPathSize ∧ address = top ++ names := by
  have parts : Path.partsOf (Path.textOf names) = names :=
    Path.partsOf_textOf some fun name inside => (valid name inside).whole
  have named : [] ∉ names := fun inside => (valid [] inside).named rfl
  have relative : Path.isAbsolute ⟨Path.textOf names⟩ = false := by
    by_contra absolute
    obtain ⟨rest, whole⟩ : ∃ rest, Path.textOf names = '/' :: rest :=
      List.head?_eq_some_iff.1 (by simpa [Path.isAbsolute] using absolute)
    rw [whole, Path.partsOf_slash] at parts
    exact named (parts ▸ List.mem_cons_self)
  have filled : Path.textOf names ≠ [] := by
    intro empty
    rw [empty] at parts
    exact named (parts ▸ List.mem_cons_self)
  have noNul : '\x00' ∉ (below folder names).text := by
    intro nul
    rcases mem_extend nul with slash | before | inside
    · cases slash
    · exact spells.noNul before
    · exact List.notMem_intercalate (by decide) (fun name among => (valid name among).noNul) inside
  have leads : tree.walk [] (Path.partsOf (below folder names).text) = .ok (top ++ names) := by
    rw [below, walk_extend tree folder relative, parts, FileTree.walk_append, spells.leads]
    exact sound.walk_names valid there
  rw [FileTree.locate_eq_ok_iff, leads]
  constructor
  · rintro ⟨-, short, same⟩
    exact ⟨short.2, (Except.ok.inj same).symm⟩
  · rintro ⟨short, rfl⟩
    exact ⟨extend_ne_nil folder filled, ⟨noNul, short⟩, rfl⟩

end Search

end PxdStub
