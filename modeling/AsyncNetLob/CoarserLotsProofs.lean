import AsyncNetLob.GreedyFillProofs

/-! # Coarser lots

    A coarser view of some lots gives each key a name and sees neighbours with the
    same name as one lot (`merge`).  Greedy filling does not care at which of the two
    levels it takes place: `fills_merge` and `rest_merge`. -/

namespace GreedyFill

variable {κ ν : Type} [DecidableEq ν] {name : κ → ν} {v : ν} {n q : ℕ}
  {lots A B : List (κ × ℕ)} {L M : List (ν × ℕ)}

/-- Put an amount in front, into the first lot if that has the name. -/
def push (v : ν) (n : ℕ) : List (ν × ℕ) → List (ν × ℕ)
  | [] => [(v, n)]
  | (u, m) :: L => if v = u then (u, n + m) :: L else (v, n) :: (u, m) :: L

/-- The coarser view. -/
def merge (name : κ → ν) : List (κ × ℕ) → List (ν × ℕ)
  | [] => []
  | (k, n) :: lots => push (name k) n (merge name lots)

@[simp] theorem push_nil : push v n [] = [(v, n)] := rfl

theorem push_same {m : ℕ} : push v n ((v, m) :: L) = (v, n + m) :: L := if_pos rfl

theorem push_other {u : ν} {m : ℕ} (h : v ≠ u) :
    push v n ((u, m) :: L) = (v, n) :: (u, m) :: L := if_neg h

@[simp] theorem merge_nil : merge name ([] : List (κ × ℕ)) = [] := rfl

@[simp] theorem merge_cons {k : κ} :
    merge name ((k, n) :: lots) = push (name k) n (merge name lots) := rfl

/-- An amount goes into the first lot, or is one by itself. -/
theorem push_cases (v : ν) (n : ℕ) (L : List (ν × ℕ)) :
    (∃ m M, L = (v, m) :: M ∧ push v n L = (v, n + m) :: M) ∨ push v n L = (v, n) :: L := by
  cases L with
  | nil => exact Or.inr rfl
  | cons lot L =>
      obtain ⟨u, m⟩ := lot
      by_cases h : v = u
      · subst h
        exact Or.inl ⟨m, L, rfl, push_same⟩
      · exact Or.inr (push_other h)

/-- **TOTALS** are the same. -/
@[simp] theorem total_push : total (push v n L) = n + total L := by
  rcases push_cases v n L with ⟨m, M, rfl, h⟩ | h
  · rw [h, total_cons, total_cons, Nat.add_assoc]
  · rw [h, total_cons]

@[simp] theorem total_merge : total (merge name lots) = total lots := by
  induction lots with
  | nil => rfl
  | cons lot lots ih =>
      obtain ⟨k, n⟩ := lot
      rw [merge_cons, total_push, ih, total_cons]

/-! ## Names -/

theorem push_names {x : ν × ℕ} (h : x ∈ push v n L) : x.1 = v ∨ ∃ y ∈ L, y.1 = x.1 := by
  rcases push_cases v n L with ⟨m, M, rfl, hpush⟩ | hpush
  · rw [hpush] at h
    rcases List.mem_cons.mp h with rfl | hx
    · exact Or.inl rfl
    · exact Or.inr ⟨x, List.mem_cons_of_mem _ hx, rfl⟩
  · rw [hpush] at h
    rcases List.mem_cons.mp h with rfl | hx
    · exact Or.inl rfl
    · exact Or.inr ⟨x, hx, rfl⟩

/-- The names are those of the lots. -/
theorem merge_names {x : ν × ℕ} (h : x ∈ merge name lots) :
    ∃ lot ∈ lots, name lot.1 = x.1 := by
  induction lots generalizing x with
  | nil => cases h
  | cons lot lots ih =>
      obtain ⟨k, n⟩ := lot
      rw [merge_cons] at h
      rcases push_names h with hx | ⟨y, hy, heq⟩
      · exact ⟨(k, n), List.mem_cons_self, hx.symm⟩
      · obtain ⟨z, hz, hname⟩ := ih hy
        exact ⟨z, List.mem_cons_of_mem _ hz, hname.trans heq⟩

theorem push_append (h : ∀ x ∈ M, x.1 ≠ v) : push v n (L ++ M) = push v n L ++ M := by
  cases L with
  | nil =>
      cases M with
      | nil => rfl
      | cons lot M =>
          obtain ⟨u, m⟩ := lot
          exact push_other (h _ List.mem_cons_self).symm
  | cons lot L =>
      obtain ⟨u, m⟩ := lot
      by_cases hv : v = u
      · subst hv
        rw [List.cons_append, push_same, push_same, List.cons_append]
      · rw [List.cons_append, push_other hv, push_other hv, List.cons_append, List.cons_append]

/-- Parts that share no name are merged one by one. -/
theorem merge_append (h : ∀ x ∈ A, ∀ y ∈ B, name y.1 ≠ name x.1) :
    merge name (A ++ B) = merge name A ++ merge name B := by
  induction A with
  | nil => rfl
  | cons lot A ih =>
      obtain ⟨k, n⟩ := lot
      rw [List.cons_append, merge_cons, merge_cons,
        ih fun x hx => h x (List.mem_cons_of_mem _ hx), push_append]
      intro x hx heq
      obtain ⟨y, hy, hname⟩ := merge_names hx
      exact h (k, n) List.mem_cons_self y hy (hname.trans heq)

/-- Lots of one name are one lot. -/
theorem merge_same (h : ∀ x ∈ lots, name x.1 = v) (hne : lots ≠ []) :
    merge name lots = [(v, total lots)] := by
  induction lots with
  | nil => exact absurd rfl hne
  | cons lot lots ih =>
      obtain ⟨k, n⟩ := lot
      have hk : name k = v := h _ List.mem_cons_self
      rw [merge_cons, hk, total_cons]
      by_cases hnil : lots = []
      · rw [hnil]
        rfl
      · rw [ih (fun x hx => h x (List.mem_cons_of_mem _ hx)) hnil, push_same]

/-- Naming first and merging then. -/
theorem merge_rename : merge (fun v => v) (lots.map fun lot => (name lot.1, lot.2))
    = merge name lots := by
  induction lots with
  | nil => rfl
  | cons lot lots ih =>
      obtain ⟨k, n⟩ := lot
      rw [List.map_cons, merge_cons, merge_cons, ih]

/-! ## Filling at either level -/

/-- The first amount is used up. -/
theorem rest_push (h : n ≤ q) : rest q (push v n L) = rest (q - n) L := by
  rcases push_cases v n L with ⟨m, M, rfl, hpush⟩ | hpush
  · rw [hpush]
    by_cases hm : m ≤ q - n
    · rw [rest_exhaust (by omega), rest_exhaust hm, Nat.sub_sub]
    · have hleft : n + m - q = m - (q - n) := by omega
      rw [rest_leaves (by omega), rest_leaves (by omega), hleft]
  · rw [hpush, rest_exhaust h]

/-- Something of the first amount is left. -/
theorem rest_push_leaves (h : q < n) : rest q (push v n L) = push v (n - q) L := by
  cases L with
  | nil => exact rest_leaves h
  | cons lot L =>
      obtain ⟨u, m⟩ := lot
      by_cases hv : v = u
      · subst hv
        rw [push_same, push_same, rest_leaves (by omega), Nat.sub_add_comm (Nat.le_of_lt h)]
      · rw [push_other hv, push_other hv, rest_leaves h]

/-- **WHAT IS LEFT** of the merged lots is what is left of the lots, merged. -/
theorem rest_merge : rest q (merge name lots) = merge name (rest q lots) := by
  induction lots generalizing q with
  | nil => rfl
  | cons lot lots ih =>
      obtain ⟨k, n⟩ := lot
      rw [merge_cons]
      by_cases hn : n ≤ q
      · rw [rest_push hn, ih, rest_exhaust hn]
      · have hlt := Nat.lt_of_not_le hn
        rw [rest_push_leaves hlt, rest_leaves hlt, merge_cons]

theorem fills_push (h : q ≠ 0) : fills q (push v n L) = push v (min q n) (fills (q - n) L) := by
  cases L with
  | nil => rw [push_nil, fills_cons h, fills_nil, push_nil]
  | cons lot L =>
      obtain ⟨u, m⟩ := lot
      by_cases hv : v = u
      · subst hv
        rw [push_same, fills_cons h]
        by_cases hdone : q - n = 0
        · have hmin : min q (n + m) = min q n := by omega
          have hzero : q - (n + m) = 0 := by omega
          rw [hdone, hmin, hzero, fills_zero, fills_zero, push_nil]
        · have hmin : min q (n + m) = min q n + min (q - n) m := by omega
          rw [fills_cons hdone, push_same, hmin, Nat.sub_sub]
      · rw [push_other hv, fills_cons h]
        by_cases hdone : q - n = 0
        · rw [hdone, fills_zero, push_nil]
        · rw [fills_cons hdone, push_other hv]

/-- **WHAT IS TAKEN** from the merged lots is what is taken from the lots, merged. -/
theorem fills_merge : fills q (merge name lots) = merge name (fills q lots) := by
  induction lots generalizing q with
  | nil => rfl
  | cons lot lots ih =>
      obtain ⟨k, n⟩ := lot
      by_cases hq : q = 0
      · rw [hq, fills_zero, fills_zero, merge_nil]
      · rw [merge_cons, fills_push hq, ih, fills_cons hq, merge_cons]

end GreedyFill
