import PxdStub.Proofs.PathNames
import Mathlib.Data.List.DropRight

/-!
The components of a path, and what becomes of them when paths are joined, cut short, given another
extension and collapsed.
-/

namespace PxdStub

/-- The place that components lead to from a place; `none` when they start anew or lead above the
place `[]`. -/
def Component.follow? (place : Address) : List Component → Option Address
  | [] => some place
  | .root :: _ => none
  | .here :: rest => follow? place rest
  | .up :: rest => if place = [] then none else follow? place.dropLast rest
  | .name text :: rest => follow? (place ++ [text]) rest

namespace Path

/-! ### Components by the parts of the text -/

/-- The component that the first of the parts of a text makes by where it stands. -/
def leading : List (List Char) → List Component
  | [] => []
  | first :: more =>
      if first = ['.'] then [.here] else if first = [] ∧ more ≠ [] then [.root] else []

theorem leading_cases (parts : List (List Char)) :
    leading parts = [] ∨ leading parts = [.here] ∨ leading parts = [.root] := by
  cases parts with
  | nil => exact .inl rfl
  | cons first more =>
      rw [leading]
      split
      · exact .inr (.inl rfl)
      · split
        · exact .inr (.inr rfl)
        · exact .inl rfl

theorem leading_cons_of_not_isIdle {part : List Char} (named : ¬isIdle part)
    (parts : List (List Char)) : leading (part :: parts) = [] := by
  have filled : part ≠ [] := by
    rintro rfl
    exact named rfl
  have dotless : part ≠ ['.'] := by
    rintro rfl
    exact named rfl
  simp [leading, filled, dotless]

/-- What stands behind the first part matters as little as the kind of a name. -/
theorem leading_append_name {name name' : List Char} (named : ¬isIdle name) (named' : ¬isIdle name')
    (front back back' : List (List Char)) :
    leading (front ++ name :: back) = leading (front ++ name' :: back') := by
  cases front with
  | nil =>
      rw [List.nil_append, List.nil_append, leading_cons_of_not_isIdle named,
        leading_cons_of_not_isIdle named']
  | cons first more => simp [leading]

theorem leading_append {front : List (List Char)} (some : front ≠ []) (more : front ≠ [[]])
    (back : List (List Char)) : leading (front ++ back) = leading front := by
  cases front with
  | nil => exact absurd rfl some
  | cons first rest =>
      by_cases empty : first = []
      · have others : rest ≠ [] := by
          rintro rfl
          exact more (by rw [empty])
        simp [leading, others]
      · simp [leading, empty]

theorem leading_of_prefix {front parts : List (List Char)} (within : front <+: parts)
    (bare : leading parts = []) : leading front = [] := by
  obtain ⟨back, rfl⟩ := within
  by_cases single : front = [] ∨ front = [[]]
  · rcases single with rfl | rfl <;> rfl
  · rw [not_or] at single
    rwa [leading_append single.1 single.2] at bare

theorem partsOf_cons {c : Char} (inside : c ≠ '/') (rest : List Char) :
    ∃ first more, partsOf rest = first :: more ∧ partsOf (c :: rest) = (c :: first) :: more := by
  obtain ⟨first, more, parts⟩ := List.exists_cons_of_ne_nil (partsOf_ne_nil rest)
  refine ⟨first, more, parts, ?_⟩
  simp only [partsOf, inside, if_false, parts]

theorem partsOf_append_of_not_mem {front text first : List Char} {more : List (List Char)}
    (inside : '/' ∉ front) (parts : partsOf text = first :: more) :
    partsOf (front ++ text) = (front ++ first) :: more := by
  induction front with
  | nil => exact parts
  | cons c front ih =>
      rw [List.mem_cons, not_or] at inside
      obtain ⟨part, others, behind, both⟩ := partsOf_cons (Ne.symm inside.1) (front ++ text)
      obtain ⟨rfl, rfl⟩ := List.cons.inj (behind.symm.trans (ih inside.2))
      exact both

theorem anchorComponents_eq (path : Path) :
    path.anchorComponents = leading (partsOf path.text) := by
  obtain ⟨text⟩ := path
  cases text with
  | nil => rfl
  | cons c rest =>
      by_cases slash : c = '/'
      · subst slash
        simp [anchorComponents, anchor, leading, partsOf_ne_nil]
      · obtain ⟨first, more, parts, whole⟩ := partsOf_cons slash rest
        rw [whole]
        by_cases dot : c = '.'
        · subst dot
          cases rest with
          | nil =>
              cases parts
              rfl
          | cons next rest =>
              by_cases closed : next = '/'
              · subst closed
                cases parts
                rfl
              · obtain ⟨_, _, _, behind⟩ := partsOf_cons closed rest
                rw [behind] at parts
                cases parts
                simp [anchorComponents, anchor, leading, closed]
        · simp [anchorComponents, anchor, leading, slash, dot]

theorem components_anchored (path : Path) :
    path.components =
      path.anchorComponents ++ (namesIn path.parts).map Component.ofPart := rfl

theorem components_eq (path : Path) :
    path.components = leading (partsOf path.text) ++ path.names.map Component.ofPart := by
  rw [components_anchored, anchorComponents_eq, names, partsOf_text,
    path.anchors_parts.namesIn_eq]

theorem ofPart_ne_root (part : List Char) : Component.ofPart part ≠ .root := by
  unfold Component.ofPart
  split <;> simp

theorem root_mem_components_iff {path : Path} : .root ∈ path.components ↔ path.isAbsolute := by
  have named : .root ∉ path.names.map Component.ofPart := by
    intro inside
    obtain ⟨part, _, same⟩ := List.mem_map.1 inside
    exact ofPart_ne_root part same
  rw [components_eq, List.mem_append, or_iff_left named, isAbsolute]
  cases path.text with
  | nil => simp [leading]
  | cons c rest =>
      by_cases slash : c = '/'
      · simp [leading, slash, partsOf_ne_nil]
      · obtain ⟨first, more, _, whole⟩ := partsOf_cons slash rest
        rw [whole]
        simp only [leading, List.cons_ne_nil, false_and, if_false]
        split <;> simp [slash]

/-! ### Parts behind an anchor -/

theorem leading_anchored {path : Path} {front : List (List Char)} (some : front ≠ [])
    (within : front <+: path.parts) :
    leading (anchored path.anchor front) = path.anchorComponents := by
  rcases path.anchors_parts with same | same | ⟨same, _⟩
  · have whole := path.anchorComponents_eq
    rw [partsOf_text] at whole
    rw [anchorComponents, same] at whole ⊢
    exact leading_of_prefix within whole.symm
  · rw [anchorComponents, same]
    simp [anchored, leading, some]
  · rw [anchorComponents, same]
    rfl

theorem components_of_front {path : Path} {front : List (List Char)}
    (within : front <+: path.parts) :
    components ⟨path.anchor ++ textOf front⟩ =
      path.anchorComponents ++ (namesIn front).map Component.ofPart := by
  have anchors : Anchors path.anchor front := by
    obtain ⟨back, whole⟩ := within
    exact (whole ▸ path.anchors_parts).of_append
  by_cases some : front = []
  · subst some
    rcases anchors with same | same | ⟨same, _⟩ <;> simp only [anchorComponents, same] <;> rfl
  · have whole : ∀ part ∈ front, '/' ∉ part := fun part inside =>
      not_mem_of_mem_partsOf (within.subset inside)
    rw [components_eq, names, anchors.partsOf_eq some whole, leading_anchored some within,
      anchors.namesIn_eq]

theorem components_textOf {parts : List (List Char)} (whole : ∀ part ∈ parts, '/' ∉ part)
    (first : ∀ part ∈ parts.head?, ¬isIdle part) :
    components ⟨textOf parts⟩ = (namesIn parts).map Component.ofPart := by
  cases parts with
  | nil => rfl
  | cons part more =>
      rw [components_eq, names, partsOf_textOf (List.cons_ne_nil part more) whole,
        leading_cons_of_not_isIdle (first part rfl), List.nil_append]

/-! ### The end of a path -/

theorem namesIn_dropWhile (parts : List (List Char)) :
    namesIn (parts.dropWhile isIdle) = namesIn parts := by
  induction parts with
  | nil => rfl
  | cons part more ih =>
      by_cases idle : isIdle part
      · rw [List.dropWhile_cons_of_pos idle, namesIn_cons_of_isIdle idle, ih]
      · rw [List.dropWhile_cons_of_neg idle]

theorem namesIn_reverse (parts : List (List Char)) :
    namesIn parts.reverse = (namesIn parts).reverse :=
  List.filter_reverse ..

theorem namesIn_dropIdleEnd (parts : List (List Char)) :
    namesIn (dropIdleEnd parts) = namesIn parts := by
  rw [dropIdleEnd, namesIn_reverse, namesIn_dropWhile, namesIn_reverse, List.reverse_reverse]

theorem isPrefix_dropIdleEnd (parts : List (List Char)) : dropIdleEnd parts <+: parts :=
  List.rdropWhile_prefix isIdle parts

theorem exists_idleEnd (parts : List (List Char)) :
    ∃ ends, parts = dropIdleEnd parts ++ ends ∧ ∀ part ∈ ends, isIdle part := by
  refine ⟨(parts.reverse.takeWhile isIdle).reverse, ?_, ?_⟩
  · rw [dropIdleEnd, ← List.reverse_append, List.takeWhile_append_dropWhile, List.reverse_reverse]
  · intro part inside
    exact List.mem_takeWhile_imp (List.mem_reverse.1 inside)

/-- What is left behind idle ends is nothing or ends in a name. -/
theorem dropIdleEnd_cases (parts : List (List Char)) :
    dropIdleEnd parts = [] ∨ ∃ front name, dropIdleEnd parts = front ++ [name] ∧ ¬isIdle name := by
  have last := List.head?_dropWhile_not isIdle parts.reverse
  cases left : parts.reverse.dropWhile isIdle with
  | nil => exact .inl (by rw [dropIdleEnd, left]; rfl)
  | cons name before =>
      rw [left] at last
      refine .inr ⟨before.reverse, name, ?_, by simpa using last⟩
      rw [dropIdleEnd, left, List.reverse_cons]

theorem components_parent (path : Path) :
    (path.parent?.getD ⟨[]⟩).components = path.components.dropLast := by
  have names := namesIn_dropIdleEnd path.parts
  rw [components_anchored path]
  unfold parent?
  obtain none | ⟨front, name, left, named⟩ := dropIdleEnd_cases path.parts
  · rw [none] at names ⊢
    rw [← names]
    rcases path.anchors_parts with same | same | ⟨same, _⟩ <;>
      simp only [anchorComponents, same] <;> rfl
  · have within : dropIdleEnd front <+: path.parts :=
      (isPrefix_dropIdleEnd front).trans
        ((List.prefix_append front [name]).trans (left ▸ isPrefix_dropIdleEnd path.parts))
    rw [left] at names ⊢
    simp only [List.reverse_append, List.reverse_cons, List.reverse_nil, List.nil_append,
      List.singleton_append, List.reverse_reverse, Option.getD_some]
    rw [components_of_front within, namesIn_dropIdleEnd, ← names, namesIn_append,
      namesIn_cons_of_not_isIdle named, List.map_append, ← List.append_assoc]
    exact List.dropLast_concat.symm

/-! ### The part of a path behind another -/

theorem namesIn_dropParts (count : Nat) (parts : List (List Char)) :
    namesIn (dropParts count parts) = (namesIn parts).drop count := by
  induction parts generalizing count with
  | nil => cases count <;> rfl
  | cons part more ih =>
      cases count with
      | zero => exact namesIn_dropWhile (part :: more)
      | succ count =>
          rw [dropParts]
          by_cases idle : isIdle part
          · rw [if_pos idle, ih, namesIn_cons_of_isIdle idle]
          · rw [if_neg idle, ih, namesIn_cons_of_not_isIdle idle, List.drop_succ_cons]

theorem dropParts_suffix (count : Nat) (parts : List (List Char)) :
    dropParts count parts <:+ parts := by
  induction parts generalizing count with
  | nil => cases count <;> exact List.suffix_refl _
  | cons part more ih =>
      cases count with
      | zero => exact List.dropWhile_suffix isIdle
      | succ count =>
          rw [dropParts]
          split
          · exact (ih _).trans (List.suffix_cons part more)
          · exact (ih _).trans (List.suffix_cons part more)

theorem head_dropParts (count : Nat) (parts : List (List Char)) :
    ∀ part ∈ (dropParts count parts).head?, ¬isIdle part := by
  induction parts generalizing count with
  | nil => cases count <;> exact fun _ none => nomatch none
  | cons part more ih =>
      cases count with
      | zero =>
          intro first found
          have head := List.head?_dropWhile_not isIdle (part :: more)
          rw [dropParts] at found
          rw [found] at head
          simpa using head
      | succ count =>
          rw [dropParts]
          split
          · exact ih _
          · exact ih _

theorem components_dropParts (count : Nat) (path : Path) :
    components ⟨textOf (dropIdleEnd (dropParts count path.parts))⟩ =
      ((namesIn path.parts).drop count).map Component.ofPart := by
  have left := dropParts_suffix count path.parts
  have kept := isPrefix_dropIdleEnd (dropParts count path.parts)
  rw [components_textOf, namesIn_dropIdleEnd, namesIn_dropParts]
  · exact fun part inside => not_mem_of_mem_partsOf (left.subset (kept.subset inside))
  · obtain ⟨back, whole⟩ := kept
    intro part first
    refine head_dropParts count path.parts part ?_
    rw [← whole, List.head?_append, Option.mem_def.1 first]
    rfl

theorem relativeTo?_eq_none_iff {path start : Path} :
    path.relativeTo? start = none ↔ ¬start.components <+: path.components := by
  rw [List.prefix_iff_eq_take]
  unfold relativeTo?
  dsimp only
  split
  · next same => split <;> simp [← same]
  · next other => simp [other]

/-- A path goes on behind `start` with what it is relative to `start`. -/
theorem components_relativeTo? {path start relative : Path}
    (found : path.relativeTo? start = some relative) :
    path.components = start.components ++ relative.components := by
  unfold relativeTo? at found
  dsimp only at found
  split at found
  swap
  · cases found
  next same =>
  split at found
  · next none =>
      cases found
      rw [none, components_of_front (isPrefix_dropIdleEnd path.parts), namesIn_dropIdleEnd,
        ← components_anchored]
      rfl
  · next some =>
      cases found
      have short : path.anchorComponents.length ≤ start.components.length := by
        have filled := List.length_pos_iff.2 some
        have single : path.anchorComponents.length ≤ 1 := by
          unfold anchorComponents
          split <;> simp
        omega
      have behind : path.components.drop start.components.length = components ⟨textOf (dropIdleEnd
          (dropParts (start.components.length - path.anchorComponents.length) path.parts))⟩ := by
        rw [components_dropParts, components_anchored path, List.drop_append,
          List.drop_eq_nil_of_le short, List.nil_append, List.map_drop]
      rw [← behind]
      nth_rewrite 1 [same]
      exact (List.take_append_drop _ _).symm

/-! ### Joining -/

/-- What a relative path adds to the components of the path it is joined to. -/
theorem components_join {path other : Path} (some : path.text ≠ [])
    (relative : other.isAbsolute = false) :
    (path.join other).components = path.components ++ other.names.map Component.ofPart := by
  have filled : path.text.isEmpty = false := by rwa [List.isEmpty_eq_false_iff]
  have behind : ∃ front back, partsOf (path.join other).text = front ++ partsOf other.text ∧
      partsOf path.text = front ++ back ∧ front ≠ [] ∧ (back = [[]] ∨ back = [] ∧ front ≠ [[]]) := by
    unfold join
    rw [relative, filled, Bool.or_false, if_neg Bool.false_ne_true]
    split
    · next closed =>
        obtain ⟨before, text⟩ := List.getLast?_eq_some_iff.1 closed
        refine ⟨partsOf before, [[]], ?_, ?_, partsOf_ne_nil before, .inl rfl⟩
        · rw [text, List.append_assoc, List.singleton_append, partsOf_append]
        · rw [text, partsOf_append, partsOf_nil]
    · refine ⟨partsOf path.text, [], partsOf_append .., (List.append_nil _).symm,
        partsOf_ne_nil _, .inr ⟨rfl, ?_⟩⟩
      intro alone
      exact some (by rw [← textOf_partsOf path.text, alone]; rfl)
  obtain ⟨front, back, joined, whole, filled, ends⟩ := behind
  have first : leading (front ++ partsOf other.text) = leading (front ++ back) := by
    obtain rfl | ⟨rfl, more⟩ := ends
    · cases front with
      | nil => exact absurd rfl filled
      | cons part parts => simp [leading, partsOf_ne_nil]
    · rw [leading_append filled more, List.append_nil]
  have none : namesIn back = [] := by
    obtain rfl | ⟨rfl, _⟩ := ends <;> rfl
  rw [components_eq, components_eq path, names, names, joined, whole, first, namesIn_append,
    namesIn_append, none, List.append_nil, List.map_append, List.append_assoc]
  rfl

/-! ### Collapsed paths -/

theorem collapseOnto_append (stack front back : List Component) :
    collapseOnto stack (front ++ back) =
      collapseOnto (collapseOnto stack front).reverse back := by
  fun_induction collapseOnto stack front with
  | case1 => rw [List.nil_append, List.reverse_reverse]
  | case2 _ _ ih => exact ih
  | case3 _ _ ih => exact ih
  | case4 _ _ _ ih => exact ih
  | case5 stack rest bare ih =>
      rw [List.cons_append, collapseOnto]
      · exact ih
      · exact bare
  | case6 _ _ _ ih => exact ih

theorem collapseOnto_name (stack front : List Component) (name : List Char) :
    collapseOnto stack (front ++ [.name name]) = collapseOnto stack front ++ [.name name] := by
  rw [collapseOnto_append]
  simp [collapseOnto]

/-- A dot at the start adds nothing. -/
theorem collapseOnto_components {path : Path} (relative : path.isAbsolute = false)
    (stack : List Component) :
    collapseOnto stack path.components =
      collapseOnto stack (path.names.map Component.ofPart) := by
  have rootless : .root ∉ path.components := by
    rw [root_mem_components_iff, relative]
    exact Bool.false_ne_true
  rw [components_eq] at rootless ⊢
  rcases leading_cases (partsOf path.text) with first | first | first <;> rw [first] at rootless ⊢
  · rfl
  · rfl
  · exact absurd (List.mem_cons_self ..) rootless

theorem collapse_join {path other : Path} (relative : other.isAbsolute = false) :
    (path.join other).collapse = collapseOnto path.collapse.reverse other.components := by
  by_cases none : path.text = []
  · have start : path = ⟨[]⟩ := congrArg Path.mk none
    rw [join, start, relative]
    rfl
  · rw [collapse, components_join none relative, collapseOnto_append,
      collapseOnto_components relative]
    rfl

/-- Components that never lead above a place are followed on top of whatever the place is in. -/
theorem collapseOnto_of_follow? {steps : List Component} {place there : Address}
    (found : Component.follow? place steps = some there) (stack : List Component) :
    collapseOnto ((place.map Component.name).reverse ++ stack) steps =
      stack.reverse ++ there.map Component.name := by
  induction steps generalizing place with
  | nil =>
      cases found
      simp [collapseOnto]
  | cons step rest ih =>
      cases step with
      | root => cases found
      | here => exact ih found
      | up =>
          rw [Component.follow?] at found
          split at found
          · cases found
          · next some =>
              have behind := ih found
              rw [← List.dropLast_append_getLast some, List.map_append, List.reverse_append]
              exact behind
      | name text =>
          have behind := ih found
          rw [List.map_append, List.reverse_append] at behind
          exact behind

/-! ### The last name -/

theorem components_of_fileName? {path : Path} {name : List Char}
    (named : path.fileName? = some name) :
    path.components = path.components.dropLast ++ [.name name] := by
  obtain ⟨last, found, isName⟩ := Option.bind_eq_some_iff.1 named
  cases last with
  | root | here | up => cases isName
  | name text =>
      cases isName
      obtain ⟨front, whole⟩ := List.getLast?_eq_some_iff.1 found
      rw [whole, List.dropLast_concat]

theorem fileName?_of_components {path : Path} {front : List Component} {name : List Char}
    (whole : path.components = front ++ [.name name]) : path.fileName? = some name := by
  rw [fileName?, whole, List.getLast?_concat]
  rfl

theorem ofPart_eq_name {part name : List Char} (same : Component.ofPart part = .name name) :
    part = name := by
  unfold Component.ofPart at same
  split at same
  · cases same
  · exact Component.name.inj same

theorem names_of_fileName? {path : Path} {name : List Char} (named : path.fileName? = some name) :
    ∃ before, path.names = before ++ [name] ∧ Component.ofPart name = .name name := by
  have whole := components_of_fileName? named
  generalize path.components.dropLast = front at whole
  rw [components_eq] at whole
  rcases List.eq_nil_or_concat path.names with none | ⟨before, last, some⟩
  · rw [none] at whole
    rcases leading_cases (partsOf path.text) with first | first | first <;> rw [first] at whole <;>
      cases front <;> simp at whole
  · rw [some, List.concat_eq_append, List.map_append, ← List.append_assoc] at whole
    have same := (List.append_inj' whole rfl).2
    have ends : Component.ofPart last = .name name := List.singleton_inj.1 same
    have equal := ofPart_eq_name ends
    subst equal
    exact ⟨before, by rw [some, List.concat_eq_append], ends⟩

/-- The parts of a path with a last name end in that name and idle parts. -/
theorem partsOf_of_fileName? {path : Path} {name : List Char}
    (named : path.fileName? = some name) :
    ∃ front ends, partsOf path.text = front ++ name :: ends ∧ ¬isIdle name ∧
      ∀ part ∈ ends, isIdle part := by
  obtain ⟨before, names, _⟩ := names_of_fileName? named
  obtain ⟨ends, whole, idle⟩ := exists_idleEnd (partsOf path.text)
  have kept := namesIn_dropIdleEnd (partsOf path.text)
  obtain none | ⟨front, last, left, filled⟩ := dropIdleEnd_cases (partsOf path.text)
  · rw [none] at kept
    exact absurd (kept.trans names).symm (List.concat_ne_nil name before)
  · rw [left, namesIn_append, namesIn_cons_of_not_isIdle filled] at kept
    have same := (List.append_inj' (kept.trans names) rfl).2
    cases List.singleton_inj.1 same
    exact ⟨front, ends, by rw [whole, left, List.append_assoc]; rfl, filled, idle⟩

theorem fileName?_join {path other : Path} {name : List Char} (relative : other.isAbsolute = false)
    (named : other.fileName? = some name) : (path.join other).fileName? = some name := by
  by_cases none : path.text = []
  · have start : path = ⟨[]⟩ := congrArg Path.mk none
    rw [join, start, relative]
    exact named
  · obtain ⟨before, names, same⟩ := names_of_fileName? named
    rw [fileName?, components_join none relative, names, List.map_append, ← List.append_assoc,
      List.map_singleton, List.getLast?_concat, same]
    rfl

/-! ### Stems and extensions -/

theorem stemOf_append {stem extension : List Char} (some : stem ≠ [])
    (dotless : '.' ∉ extension) : stemOf (stem ++ '.' :: extension) = stem := by
  have behind : (stem ++ '.' :: extension).reverse =
      extension.reverse ++ '.' :: stem.reverse := by simp
  have passed : ∀ c ∈ extension.reverse, (c != '.') = true := by
    intro c inside
    rw [List.mem_reverse] at inside
    rw [bne_iff_ne]
    rintro rfl
    exact dotless inside
  unfold stemOf
  rw [behind, List.dropWhile_append_of_pos passed]
  simp [some]

theorem extensionOf_append {stem extension : List Char} (some : stem ≠ [])
    (dotless : '.' ∉ extension) : extensionOf (stem ++ '.' :: extension) = extension := by
  rw [extensionOf, stemOf_append some dotless, ← List.drop_drop, List.drop_left]
  rfl

theorem partsOf_append_parts {text more : List Char} {front back : List (List Char)}
    {part piece : List Char} (first : partsOf text = front ++ [part])
    (second : partsOf more = piece :: back) :
    partsOf (text ++ more) = front ++ (part ++ piece) :: back := by
  induction text generalizing front part with
  | nil =>
      have alone : [] ++ [[]] = front ++ [part] := first
      obtain ⟨rfl, same⟩ := List.append_inj' alone rfl
      cases same
      exact second
  | cons c rest ih =>
      by_cases slash : c = '/'
      · subst slash
        rw [partsOf_slash] at first
        cases front with
        | nil => exact absurd (List.cons.inj first).2 (partsOf_ne_nil rest)
        | cons before front =>
            obtain ⟨rfl, behind⟩ := List.cons.inj first
            rw [List.cons_append, partsOf_slash, ih behind]
            rfl
      · obtain ⟨head, tail, parts, whole⟩ := partsOf_cons slash rest
        rw [whole] at first
        cases front with
        | nil =>
            obtain ⟨rfl, rfl⟩ := List.cons.inj first
            have behind := @ih [] _ parts
            simp only [List.cons_append, List.nil_append] at behind ⊢
            simp only [partsOf, slash, if_false, behind]
        | cons before front =>
            obtain ⟨rfl, rfl⟩ := List.cons.inj first
            have behind := @ih (head :: front) _ parts
            simp only [List.cons_append] at behind ⊢
            simp only [partsOf, slash, if_false, behind]

theorem isIdle_of_append {part piece : List Char} (idle : isIdle (part ++ piece)) :
    isIdle part := by
  rw [isIdle, Bool.or_eq_true, decide_eq_true_eq, decide_eq_true_eq] at idle
  rcases idle with none | dot
  · rw [(List.append_eq_nil_iff.1 none).1]
    rfl
  · rcases List.append_eq_singleton_iff.1 dot with ⟨rfl, _⟩ | ⟨rfl, _⟩ <;> rfl

/-- Without as many characters as its extension has, the text of a path still ends in its stem, the
dot behind it and idle parts, whatever stands behind the last name. -/
theorem exists_partsOf_take {path : Path} {stem extension : List Char}
    (named : path.fileName? = some (stem ++ '.' :: extension)) (dotless : '.' ∉ extension) :
    ∃ front back rest ends, partsOf path.text = front ++ (stem ++ '.' :: extension) :: back ∧
      partsOf (path.text.take (path.text.length - extension.length)) =
        front ++ (stem ++ '.' :: rest) :: ends ∧
      '.' ∉ rest ∧ (∀ part ∈ back, isIdle part) ∧ ∀ part ∈ ends, isIdle part := by
  obtain ⟨front, back, whole, filled, idle⟩ := partsOf_of_fileName? named
  generalize kept : path.text.take (path.text.length - extension.length) = text
  generalize lost : path.text.drop (path.text.length - extension.length) = more
  have cut : text ++ more = path.text := by rw [← kept, ← lost, List.take_append_drop]
  have short : more.length ≤ extension.length := by
    rw [← lost, List.length_drop]
    omega
  have long : more.length < (stem ++ '.' :: extension).length := by
    rw [List.length_append, List.length_cons]
    omega
  obtain ⟨before, part, first⟩ : ∃ before part, partsOf text = before ++ [part] := by
    rcases List.eq_nil_or_concat (partsOf text) with none | ⟨before, part, some⟩
    · exact absurd none (partsOf_ne_nil text)
    · exact ⟨before, part, by rw [some, List.concat_eq_append]⟩
  obtain ⟨piece, after, second⟩ := List.exists_cons_of_ne_nil (partsOf_ne_nil more)
  have joined := partsOf_append_parts first second
  rw [cut, whole] at joined
  -- The cut goes through the last name or through the idle parts behind it.
  have through : front = before ∧ stem ++ '.' :: extension = part ++ piece ∨
      ∃ passed, before = front ++ (stem ++ '.' :: extension) :: passed ∧
        back = passed ++ (part ++ piece) :: after := by
    obtain ⟨passed, same, rest⟩ | ⟨passed, same, rest⟩ := List.append_eq_append_iff.1 joined
    · cases passed with
      | nil => exact .inl ⟨by simpa using same.symm, (List.cons.inj rest).1⟩
      | cons name passed =>
          obtain ⟨rfl, behind⟩ := List.cons.inj rest
          exact .inr ⟨passed, same, behind⟩
    · cases passed with
      | nil => exact .inl ⟨by simpa using same, (List.cons.inj rest).1.symm⟩
      | cons name passed =>
          obtain ⟨_, behind⟩ := List.cons.inj rest
          have inside : stem ++ '.' :: extension ∈ partsOf more := by
            rw [second, behind]
            simp
          have bound := (infix_of_mem_partsOf inside).length_le
          omega
  obtain ⟨rfl, name⟩ | ⟨passed, rfl, behind⟩ := through
  · have bound : piece.length ≤ more.length :=
      (infix_of_mem_partsOf (by rw [second]; exact List.mem_cons_self ..)).length_le
    obtain ⟨rest, ends, behind⟩ | ⟨rest, _, behind⟩ := List.append_eq_append_iff.1 name
    · cases rest with
      | nil =>
          have same := congrArg List.length behind
          rw [List.nil_append, List.length_cons] at same
          omega
      | cons dot rest =>
          obtain ⟨rfl, whole'⟩ := List.cons.inj behind
          refine ⟨front, back, rest, [], whole, by rw [first, ends], ?_, idle, fun _ none => nomatch none⟩
          exact fun inside => dotless (by rw [whole']; exact List.mem_append_left piece inside)
    · have same := congrArg List.length behind
      rw [List.length_append, List.length_cons] at same
      omega
  · have idlePart : isIdle part :=
      isIdle_of_append (idle (part ++ piece) (by rw [behind]; simp))
    refine ⟨front, back, extension, passed ++ [part], whole, ?_, dotless, idle, ?_⟩
    · rw [first, List.append_assoc]
      rfl
    · intro other inside
      rcases List.mem_append.1 inside with inside | inside
      · exact idle other (by rw [behind]; simp [inside])
      · cases List.mem_singleton.1 inside
        exact idlePart

/-- A name that does not start with a dot is neither idle nor goes up. -/
theorem name_of_visible {name : List Char} (filled : name ≠ []) (visible : name.head? ≠ some '.') :
    ¬isIdle name ∧ Component.ofPart name = .name name := by
  cases name with
  | nil => exact absurd rfl filled
  | cons c rest =>
      have dotless : c ≠ '.' := fun same => visible (by rw [same]; rfl)
      simp [isIdle, Component.ofPart, dotless]

theorem namesIn_append_name {name : List Char} (named : ¬isIdle name) {front ends : List (List Char)}
    (idle : ∀ part ∈ ends, isIdle part) :
    namesIn (front ++ name :: ends) = namesIn front ++ [name] := by
  rw [namesIn_append, namesIn_cons_of_not_isIdle named, namesIn_of_idle idle]

theorem names_of_parts {path : Path} {front ends : List (List Char)} {name : List Char}
    (parts : partsOf path.text = front ++ name :: ends) (named : ¬isIdle name)
    (idle : ∀ part ∈ ends, isIdle part) : path.names = namesIn front ++ [name] := by
  rw [names, parts, namesIn_append_name named idle]

theorem components_of_parts {path : Path} {front ends : List (List Char)} {name : List Char}
    (parts : partsOf path.text = front ++ name :: ends)
    (named : ¬isIdle name ∧ Component.ofPart name = .name name)
    (idle : ∀ part ∈ ends, isIdle part) :
    path.components =
      leading (partsOf path.text) ++ (namesIn front).map Component.ofPart ++ [.name name] := by
  rw [components_eq, names_of_parts parts named.1 idle, List.map_append, ← List.append_assoc,
    List.map_singleton, named.2]

/-- Another name in place of the last one. -/
theorem components_renamed {path : Path} {front : List (List Char)} {last name : List Char}
    (left : dropIdleEnd path.parts = front ++ [last]) (named : ¬isIdle last)
    (named' : ¬isIdle name) (whole : '/' ∉ name) :
    components ⟨path.anchor ++ textOf (front ++ [name])⟩ =
      path.anchorComponents ++ (namesIn front).map Component.ofPart ++ [Component.ofPart name] := by
  have within : front ++ [last] <+: path.parts := left ▸ isPrefix_dropIdleEnd path.parts
  have anchors : Anchors path.anchor (front ++ [last]) := by
    obtain ⟨back, parts⟩ := within
    exact (parts ▸ path.anchors_parts).of_append
  have anchors' := anchors.renamed named name
  have slashless : ∀ part ∈ front ++ [name], '/' ∉ part := by
    intro part inside
    rcases List.mem_append.1 inside with inside | inside
    · exact not_mem_of_mem_partsOf (within.subset (List.mem_append_left _ inside))
    · cases List.mem_singleton.1 inside
      exact whole
  have first := leading_anchored (List.concat_ne_nil last front) within
  rw [anchors.anchored_append_name named] at first
  rw [components_eq, names, anchors'.partsOf_eq (List.concat_ne_nil name front) slashless,
    anchors'.namesIn_eq, anchors'.anchored_append_name named',
    leading_append_name named' named _ [] [], first, namesIn_append,
    namesIn_cons_of_not_isIdle named', List.map_append, List.append_assoc]
  rfl

/-- The path without the extension of its last name has the stem in place of that name. -/
theorem components_withExtension_nil {path : Path} {stem extension : List Char}
    (named : path.fileName? = some (stem ++ '.' :: extension)) (filled : stem ≠ [])
    (visible : stem.head? ≠ some '.') (dotless : '.' ∉ extension) :
    (path.withExtension []).components = path.components.dropLast ++ [.name stem] := by
  obtain ⟨front, back, rest, ends, whole, cut, dotless', idle, idle'⟩ :=
    exists_partsOf_take named dotless
  have seen : ∀ suffix, ¬isIdle (stem ++ suffix) ∧
      Component.ofPart (stem ++ suffix) = .name (stem ++ suffix) := fun suffix =>
    name_of_visible (List.append_ne_nil_of_left_ne_nil filled suffix) (by
      rwa [List.head?_append_of_ne_nil _ filled])
  have old : (path.fileName?.map extensionOf).getD [] = extension := by
    rw [named]
    exact extensionOf_append filled dotless
  unfold withExtension
  rw [old]
  dsimp only
  generalize path.text.take (path.text.length - extension.length) = text at cut
  have names := @names_of_parts ⟨text⟩ _ _ _ cut (seen ('.' :: rest)).1 idle'
  have components := @components_of_parts ⟨text⟩ _ _ _ cut (seen ('.' :: rest)) idle'
  have stemmed : fileStem? ⟨text⟩ = some stem := by
    rw [fileStem?, fileName?_of_components components, Option.map_some,
      stemOf_append filled dotless']
  unfold setExtension
  rw [stemmed]
  dsimp only
  have kept := namesIn_dropIdleEnd (parts ⟨text⟩)
  rw [← (anchors_parts ⟨text⟩).namesIn_eq, ← partsOf_text] at kept
  obtain none | ⟨folders, last, left, lastNamed⟩ := dropIdleEnd_cases (parts ⟨text⟩)
  · rw [none] at kept
    exact absurd (kept.trans names).symm (List.concat_ne_nil _ _)
  · have slashless : '/' ∉ stem := by
      have inside : stem ++ '.' :: extension ∈ partsOf path.text := by
        rw [whole]
        simp
      exact fun slash => not_mem_of_mem_partsOf inside (List.mem_append_left _ slash)
    have stemSeen := name_of_visible filled visible
    rw [left, namesIn_append, namesIn_cons_of_not_isIdle lastNamed] at kept
    rw [left, List.dropLast_concat, if_pos rfl, List.append_nil,
      components_renamed left lastNamed stemSeen.1 slashless, anchorComponents_eq, cut,
      (List.append_inj' (kept.trans names) rfl).1, stemSeen.2,
      components_of_parts whole (seen ('.' :: extension)) idle, List.dropLast_concat, whole,
      leading_append_name (seen _).1 (seen _).1]

end Path

end PxdStub
