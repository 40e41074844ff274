import Mathlib.Data.List.Basic

/-!
Lists that are sorted by a key, where of the elements with one key the first is kept. Which one is
the first is a matter of the list before it is sorted.
-/

namespace PxdStub

variable {α κ : Type} {le : α → α → Bool} {key : α → κ}

/-- An order in which elements stand as their keys do. -/
structure OrdersKeys (le : α → α → Bool) (key : α → κ) : Prop where
  total : ∀ left right, le left right || le right left
  trans : ∀ left middle right, le left middle → le middle right → le left right
  antisymm : ∀ left right, le left right → le right left → key left = key right
  congr : ∀ left right, key left = key right → le left right

/-- Elements in order, no two of them with the same key. -/
def IsStrict (le : α → α → Bool) (key : α → κ) (list : List α) : Prop :=
  list.Pairwise fun left right => le left right ∧ key left ≠ key right

/-! ### Repetitions in a row -/

theorem eraseRepsBy_cons_cons (same : α → α → Bool) (first next : α) (rest : List α) :
    (first :: next :: rest).eraseRepsBy same =
      if same first next then (first :: rest).eraseRepsBy same
      else first :: (next :: rest).eraseRepsBy same := by
  have loop (last : α) (rest taken : List α) : List.eraseRepsBy.loop same last rest taken =
      taken.reverse ++ List.eraseRepsBy.loop same last rest [] := by
    induction rest generalizing last taken with
    | nil => simp [List.eraseRepsBy.loop]
    | cons next rest ih =>
        cases agree : same last next with
        | true => simp only [List.eraseRepsBy.loop, agree, ih last taken]
        | false =>
            simp only [List.eraseRepsBy.loop, agree, ih next (last :: taken), ih next [last]]
            simp
  rw [List.eraseRepsBy, List.eraseRepsBy.loop]
  cases agree : same first next with
  | true => rfl
  | false =>
      simp only [loop next rest [first]]
      rfl

namespace OrdersKeys

/-- Behind an element with another key no element has the key of the one before it. -/
theorem apart_of_sorted (orders : OrdersKeys le key) {first next : α} {rest : List α}
    (before : le first next) (apart : key first ≠ key next)
    (sorted : (next :: rest).Pairwise fun left right => le left right) {other : α}
    (inside : other ∈ next :: rest) : key first ≠ key other := by
  have behind : le next other := by
    rcases List.mem_cons.1 inside with rfl | later
    · exact orders.congr _ _ rfl
    · exact (List.pairwise_cons.1 sorted).1 other later
  intro same
  refine apart (orders.antisymm _ _ before ?_)
  exact orders.trans _ _ _ behind (orders.congr _ _ same.symm)

/-- There is one way to put a set of keys in strict order. -/
theorem map_key_eq (orders : OrdersKeys le key) {list list' : List α}
    (strict : IsStrict le key list) (strict' : IsStrict le key list')
    (same : ∀ value, value ∈ list.map key ↔ value ∈ list'.map key) :
    list.map key = list'.map key := by
  have perm : (list.map key).Perm (list'.map key) := by
    refine (List.perm_ext_iff_of_nodup ?_ ?_).2 same
    · exact List.pairwise_map.2 (strict.imp And.right)
    · exact List.pairwise_map.2 (strict'.imp And.right)
  have ordered {list : List α} (strict : IsStrict le key list) : (list.map key).Pairwise
      fun first second => ∃ left right, key left = first ∧ key right = second ∧ le left right :=
    List.pairwise_map.2 (strict.imp fun ordered => ⟨_, _, rfl, rfl, ordered.1⟩)
  refine perm.eq_of_pairwise ?_ (ordered strict) (ordered strict')
  rintro _ _ - - ⟨left, right, rfl, rfl, first⟩ ⟨right', left', equal, equal', second⟩
  refine orders.antisymm _ _ first ?_
  exact orders.trans _ _ _ (orders.congr _ _ equal.symm)
    (orders.trans _ _ _ second (orders.congr _ _ equal'))

variable [DecidableEq κ]

/-- What stays of a sorted list is the first element of each key. -/
theorem mem_eraseRepsBy_iff (orders : OrdersKeys le key) {list : List α} {element : α}
    (sorted : list.Pairwise fun left right => le left right) :
    element ∈ list.eraseRepsBy (fun left right => key left = key right) ↔
      list.find? (fun other => key other = key element) = some element := by
  cases list with
  | nil => simp [List.eraseRepsBy]
  | cons first rest =>
      induction rest generalizing first with
      | nil =>
          by_cases same : key first = key element
          · simp [List.eraseRepsBy, List.eraseRepsBy.loop, same, eq_comm]
          · have other : element ≠ first := fun equal => same (by rw [equal])
            simp [List.eraseRepsBy, List.eraseRepsBy.loop, same, other]
      | cons next rest ih =>
          obtain ⟨before, tail⟩ := List.pairwise_cons.1 sorted
          rw [eraseRepsBy_cons_cons]
          by_cases agree : key first = key next
          · -- The second element is dropped, and the first is found in its place.
            have shorter : (first :: rest).Pairwise fun left right => le left right :=
              .cons (fun other inside => before other (.tail _ inside))
                (List.pairwise_cons.1 tail).2
            rw [if_pos (by simpa using agree), ih first shorter, List.find?_cons, List.find?_cons,
              List.find?_cons, agree]
            by_cases same : key next = key element
            · simp [same]
            · simp [same]
          · -- No later element has the key of the first, which is kept.
            rw [if_neg (by simpa using agree), List.mem_cons, ih next tail]
            have apart : ∀ other ∈ next :: rest, key first ≠ key other := fun other inside =>
              orders.apart_of_sorted (before next (.head _)) agree tail inside
            by_cases same : key first = key element
            · have here : (first :: next :: rest).find? (fun other => key other = key element) =
                  some first := List.find?_cons_of_pos (by simpa using same)
              have none : (next :: rest).find? (fun other => key other = key element) = none := by
                refine List.find?_eq_none.2 fun other inside => ?_
                simpa [← same] using (apart other inside).symm
              rw [here, none]
              simp [eq_comm]
            · have later : (first :: next :: rest).find? (fun other => key other = key element) =
                  (next :: rest).find? (fun other => key other = key element) :=
                List.find?_cons_of_neg (by simpa using same)
              rw [later, or_iff_right]
              rintro rfl
              exact same rfl

theorem isStrict_eraseRepsBy (orders : OrdersKeys le key) {list : List α}
    (sorted : list.Pairwise fun left right => le left right) :
    IsStrict le key (list.eraseRepsBy fun left right => key left = key right) := by
  cases list with
  | nil => exact .nil
  | cons first rest =>
      induction rest generalizing first with
      | nil => exact List.pairwise_singleton _ _
      | cons next rest ih =>
          obtain ⟨before, tail⟩ := List.pairwise_cons.1 sorted
          rw [eraseRepsBy_cons_cons]
          split
          · refine ih first ?_
            exact .cons (fun other inside => before other (.tail _ inside))
              (List.pairwise_cons.1 tail).2
          · next apart =>
              refine .cons ?_ (ih next tail)
              intro other kept
              have inside := List.mem_of_find?_eq_some ((orders.mem_eraseRepsBy_iff tail).1 kept)
              exact ⟨before other inside, orders.apart_of_sorted (before next (.head _))
                (by simpa using apart) tail inside⟩

/-! ### Sorted lists -/

/-- Sorting is stable: the first element of a key is the same before and after it. -/
theorem find?_mergeSort (orders : OrdersKeys le key) (list : List α) (element : α) :
    (list.mergeSort le).find? (fun other => key other = key element) =
      list.find? fun other => key other = key element := by
  rw [← List.head?_filter, ← List.head?_filter]
  have alike : (list.filter fun other => key other = key element).Pairwise
      fun left right => le left right := by
    refine List.pairwise_of_forall_mem_list ?_
    intro left inside right inside'
    have same := (List.mem_filter.1 inside).2
    have same' := (List.mem_filter.1 inside').2
    rw [decide_eq_true_eq] at same same'
    exact orders.congr _ _ (same.trans same'.symm)
  have kept := (List.sublist_mergeSort orders.trans orders.total alike List.filter_sublist).filter
    fun other => decide (key other = key element)
  rw [List.filter_filter] at kept
  simp only [Bool.and_self] at kept
  rw [kept.eq_of_length ((list.mergeSort_perm le).symm.filter _).length_eq]

theorem mem_sorted_iff (orders : OrdersKeys le key) {list : List α} {element : α} :
    element ∈ (list.mergeSort le).eraseRepsBy (fun left right => key left = key right) ↔
      list.find? (fun other => key other = key element) = some element := by
  rw [orders.mem_eraseRepsBy_iff (List.pairwise_mergeSort orders.trans orders.total list),
    orders.find?_mergeSort]

/-- No key is lost, and none is new. -/
theorem mem_keys_sorted_iff (orders : OrdersKeys le key) (list : List α) {value : κ} :
    value ∈ ((list.mergeSort le).eraseRepsBy fun left right => key left = key right).map key ↔
      value ∈ list.map key := by
  rw [List.mem_map, List.mem_map]
  constructor
  · rintro ⟨element, kept, rfl⟩
    exact ⟨element, List.mem_of_find?_eq_some (orders.mem_sorted_iff.1 kept), rfl⟩
  · rintro ⟨element, inside, rfl⟩
    obtain ⟨first, found⟩ : ∃ first,
        list.find? (fun other => key other = key element) = some first :=
      Option.isSome_iff_exists.1 (List.find?_isSome.2 ⟨element, inside, by simp⟩)
    have same : key first = key element := by simpa using List.find?_some found
    exact ⟨first, orders.mem_sorted_iff.2 (by rwa [same]), same⟩

theorem isStrict_sorted (orders : OrdersKeys le key) (list : List α) :
    IsStrict le key
      ((list.mergeSort le).eraseRepsBy fun left right => key left = key right) :=
  orders.isStrict_eraseRepsBy (List.pairwise_mergeSort orders.trans orders.total list)

end OrdersKeys

namespace IsStrict

variable [DecidableEq κ]

theorem eraseRepsBy_eq_self {list : List α} (strict : IsStrict le key list) :
    list.eraseRepsBy (fun left right => key left = key right) = list := by
  cases list with
  | nil => rfl
  | cons first rest =>
      induction rest generalizing first with
      | nil => rfl
      | cons next rest ih =>
          obtain ⟨before, tail⟩ := List.pairwise_cons.1 strict
          rw [eraseRepsBy_cons_cons, if_neg (by simpa using (before next (.head _)).2),
            ih next tail]

theorem sorted_eq_self {list : List α} (strict : IsStrict le key list) :
    (list.mergeSort le).eraseRepsBy (fun left right => key left = key right) = list := by
  rw [List.mergeSort_of_pairwise (strict.imp And.left), strict.eraseRepsBy_eq_self]

end IsStrict

end PxdStub
