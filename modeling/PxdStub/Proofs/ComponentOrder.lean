import PxdStub.Proofs.MergedIncludes

/-!
The order of paths by their components, which is total and tells the same components from others.
-/

namespace PxdStub

namespace Component

/-- Components in strict order: a root comes first, then a dot, two dots, and names by their
bytes. -/
inductive Before : Component → Component → Prop
  | kind {left right : Component} : left.rank < right.rank → Before left right
  | bytes {left right : List Char} : Text.bytes left < Text.bytes right →
      Before (name left) (name right)

theorem le_total (left right : Component) : left.le right || right.le left := by
  cases left with
  | name a =>
      cases right with
      | name b => exact Text.le_total a b
      | root | here | up => rfl
  | root | here | up => cases right <;> rfl

theorem le_antisymm {left right : Component} (first : left.le right) (second : right.le left) :
    left = right := by
  cases left with
  | name a =>
      cases right with
      | name b => exact congrArg name (Text.le_antisymm first second)
      | root | here | up => cases first
  | root | here | up => cases right <;> simp [le, rank] at first second ⊢

theorem le_trans {left middle right : Component} (first : left.le middle)
    (second : middle.le right) : left.le right := by
  cases middle with
  | name b =>
      cases right with
      | name c =>
          cases left with
          | name a => exact Text.le_trans first second
          | root | here | up => rfl
      | root | here | up => cases second
  | root | here | up => cases left <;> cases right <;> simp [le, rank] at first second ⊢

theorem before_of_le {left right : Component} (ordered : left.le right) (apart : left ≠ right) :
    left.Before right := by
  cases left with
  | name a =>
      cases right with
      | name b => exact .bytes (Text.bytes_lt ordered fun same => apart (congrArg name same))
      | root | here | up => cases ordered
  | root | here | up =>
      refine .kind ?_
      cases right <;> simp [le, rank] at ordered apart ⊢

end Component

namespace Path

theorem componentsLe_total (left right : List Component) :
    componentsLe left right || componentsLe right left := by
  induction left generalizing right with
  | nil => rfl
  | cons a left ih =>
      cases right with
      | nil => rfl
      | cons b right =>
          by_cases same : a = b
          · subst same
            simpa [componentsLe] using ih right
          · simpa [componentsLe, same, Ne.symm same] using Component.le_total a b

theorem componentsLe_antisymm {left right : List Component} (first : componentsLe left right)
    (second : componentsLe right left) : left = right := by
  induction left generalizing right with
  | nil =>
      cases right with
      | nil => rfl
      | cons b right => cases second
  | cons a left ih =>
      cases right with
      | nil => cases first
      | cons b right =>
          by_cases same : a = b
          · subst same
            simp only [componentsLe, if_true] at first second
            rw [ih first second]
          · simp only [componentsLe, same, Ne.symm same, if_false] at first second
            exact absurd (Component.le_antisymm first second) same

theorem componentsLe_trans {left middle right : List Component} (first : componentsLe left middle)
    (second : componentsLe middle right) : componentsLe left right := by
  induction left generalizing middle right with
  | nil => rfl
  | cons a left ih =>
      cases middle with
      | nil => cases first
      | cons b middle =>
          cases right with
          | nil => cases second
          | cons c right =>
              simp only [componentsLe] at first second ⊢
              by_cases ab : a = b
              · subst ab
                by_cases ac : a = c
                · rw [if_pos ac] at second ⊢
                  rw [if_pos rfl] at first
                  exact ih first second
                · rwa [if_neg ac] at second ⊢
              · rw [if_neg ab] at first
                by_cases bc : b = c
                · subst bc
                  rwa [if_neg ab]
                · rw [if_neg bc] at second
                  have ac : a ≠ c := by
                    rintro rfl
                    exact ab (Component.le_antisymm first second)
                  rw [if_neg ac]
                  exact Component.le_trans first second

theorem ordersComponents : OrdersKeys le components where
  total _ _ := componentsLe_total _ _
  trans _ _ _ := componentsLe_trans
  antisymm _ _ := componentsLe_antisymm
  congr left right same := by
    rw [le, same]
    simpa using componentsLe_total right.components right.components

/-- Paths in strict order: their components are compared from the first on, and a path comes
before those that go on behind it. -/
def Before (left right : Path) : Prop :=
  List.Lex Component.Before left.components right.components

theorem lex_of_componentsLe {left right : List Component} (ordered : componentsLe left right)
    (apart : left ≠ right) : List.Lex Component.Before left right := by
  induction left generalizing right with
  | nil =>
      obtain ⟨b, right, rfl⟩ := List.exists_cons_of_ne_nil (Ne.symm apart)
      exact .nil
  | cons a left ih =>
      cases right with
      | nil => cases ordered
      | cons b right =>
          rw [componentsLe] at ordered
          by_cases same : a = b
          · subst same
            rw [if_pos rfl] at ordered
            exact .cons (ih ordered fun equal => apart (by rw [equal]))
          · rw [if_neg same] at ordered
            exact .rel (Component.before_of_le ordered same)

end Path

end PxdStub
