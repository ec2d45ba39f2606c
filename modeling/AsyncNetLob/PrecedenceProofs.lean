import Mathlib.Data.List.Basic
import Mathlib.Data.List.Nodup

/-! # Standing in line

    `Before l x y`: in the line `l`, `x` stands before `y`.  A line without
    repetitions orders its members (`Before.total`, `Before.asymm`); whoever
    leaves does not change the order of those who stay (`Before.stay`), and neither
    does whoever joins (`Before.join`). -/

namespace Precedence

variable {α : Type} {l l' A B : List α} {x y : α}

def Before (l : List α) (x y : α) : Prop := [x, y].Sublist l

theorem Before.left_mem (h : Before l x y) : x ∈ l := h.subset List.mem_cons_self

theorem Before.right_mem (h : Before l x y) : y ∈ l :=
  h.subset (List.mem_cons_of_mem _ List.mem_cons_self)

/-- The first one, or one of the others. -/
theorem before_cons {z : α} : Before (z :: l) x y ↔ Before l x y ∨ x = z ∧ y ∈ l := by
  constructor
  · intro h
    cases h with
    | cons _ h => exact Or.inl h
    | cons_cons _ h => exact Or.inr ⟨rfl, List.singleton_sublist.mp h⟩
  · rintro (h | ⟨rfl, hy⟩)
    · exact List.Sublist.cons _ h
    · exact List.Sublist.cons_cons _ (List.singleton_sublist.mpr hy)

/-- Everyone in the first part stands before everyone in the second. -/
theorem before_append (hx : x ∈ A) (hy : y ∈ B) : Before (A ++ B) x y :=
  (List.singleton_sublist.mpr hx).append (List.singleton_sublist.mpr hy)

theorem Before.map {β : Type} (f : α → β) (h : Before l x y) : Before (l.map f) (f x) (f y) :=
  List.Sublist.map f h

/-- **JOINING** a line changes nothing for those in it. -/
theorem Before.join (h : Before l x y) (hl : l.Sublist l') : Before l' x y := h.trans hl

theorem Before.asymm (hl : l.Nodup) (h : Before l x y) : ¬ Before l y x := by
  induction l with
  | nil => cases h
  | cons z l ih =>
      obtain ⟨hz, hl⟩ := List.nodup_cons.mp hl
      rw [before_cons] at h ⊢
      rintro (hyx | ⟨rfl, hx⟩)
      · rcases h with h | ⟨rfl, -⟩
        · exact ih hl h hyx
        · exact hz hyx.right_mem
      · rcases h with h | ⟨-, hy⟩
        · exact hz h.right_mem
        · exact hz hy

theorem Before.total (hx : x ∈ l) (hy : y ∈ l) (hne : x ≠ y) : Before l x y ∨ Before l y x := by
  induction l with
  | nil => cases hx
  | cons z l ih =>
      rw [before_cons, before_cons]
      rcases List.mem_cons.mp hx with rfl | hx'
      · rcases List.mem_cons.mp hy with rfl | hy'
        · exact absurd rfl hne
        · exact Or.inl (Or.inr ⟨rfl, hy'⟩)
      · rcases List.mem_cons.mp hy with rfl | hy'
        · exact Or.inr (Or.inr ⟨rfl, hx'⟩)
        · exact (ih hx' hy').imp Or.inl Or.inl

/-- **STAYING** in a line that others leave. -/
theorem Before.stay (hl : l.Nodup) (h : Before l x y) (hl' : l'.Sublist l) (hx : x ∈ l')
    (hy : y ∈ l') : Before l' x y := by
  have hne : x ≠ y := by
    rintro rfl
    exact h.asymm hl h
  rcases Before.total hx hy hne with hxy | hyx
  · exact hxy
  · exact absurd (hyx.join hl') (h.asymm hl)

/-- A line in two parts: who stands before one of the first part is in it. -/
theorem Before.of_append (hl : (A ++ B).Nodup) (h : Before (A ++ B) x y) (hy : y ∈ A) :
    Before A x y := by
  refine h.stay hl (List.sublist_append_left A B) ?_ hy
  rcases List.mem_append.mp h.left_mem with hx | hx
  · exact hx
  · exact absurd (before_append hy hx) (h.asymm hl)

end Precedence
