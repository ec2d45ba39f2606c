import AsyncNetLob.PrecedenceProofs
import Mathlib.Algebra.BigOperators.Group.List.Basic
import Mathlib.Algebra.GroupWithZero.Nat

/-! # Filling a demand from lots

    A LOT is a key with an amount.  A demand `q` is filled from a list of lots,
    first come first served: `fills` lists what it takes from each lot, `rest` is
    what it leaves of them.  Nothing is assumed about the keys. -/

namespace GreedyFill

open Precedence

variable {κ : Type}

/-- All that lies in some lots. -/
def total (lots : List (κ × ℕ)) : ℕ := (lots.map Prod.snd).sum

def fills : ℕ → List (κ × ℕ) → List (κ × ℕ)
  | _, [] => []
  | q, (k, n) :: lots => if q = 0 then [] else (k, min q n) :: fills (q - n) lots

def rest : ℕ → List (κ × ℕ) → List (κ × ℕ)
  | _, [] => []
  | q, (k, n) :: lots => if n ≤ q then rest (q - n) lots else (k, n - q) :: lots

/-- No lot is empty. -/
def Positive (lots : List (κ × ℕ)) : Prop := ∀ lot ∈ lots, 0 < lot.2

variable {q n : ℕ} {k : κ} {lots A B : List (κ × ℕ)}

@[simp] theorem total_nil : total ([] : List (κ × ℕ)) = 0 := rfl

@[simp] theorem total_cons : total ((k, n) :: lots) = n + total lots := rfl

@[simp] theorem total_append : total (A ++ B) = total A + total B := by
  simp [total]

@[simp] theorem fills_nil : fills q ([] : List (κ × ℕ)) = [] := rfl

@[simp] theorem rest_nil : rest q ([] : List (κ × ℕ)) = [] := rfl

@[simp] theorem fills_zero (lots : List (κ × ℕ)) : fills 0 lots = [] := by
  cases lots <;> rfl

theorem fills_cons (h : q ≠ 0) :
    fills q ((k, n) :: lots) = (k, min q n) :: fills (q - n) lots := by
  rw [fills, if_neg h]

theorem rest_exhaust (h : n ≤ q) : rest q ((k, n) :: lots) = rest (q - n) lots := by
  rw [rest, if_pos h]

theorem rest_leaves (h : q < n) : rest q ((k, n) :: lots) = (k, n - q) :: lots := by
  rw [rest, if_neg (Nat.not_le_of_lt h)]

theorem Positive.tail (h : Positive ((k, n) :: lots)) : Positive lots :=
  fun lot hlot => h lot (List.mem_cons_of_mem _ hlot)

theorem Positive.head (h : Positive ((k, n) :: lots)) : 0 < n := h _ List.mem_cons_self

/-- No demand, nothing taken. -/
theorem rest_zero (h : Positive lots) : rest 0 lots = lots := by
  cases lots with
  | nil => rfl
  | cons lot lots => exact rest_leaves h.head

/-- **AMOUNT**: the fills take as much of the demand as there is. -/
theorem total_fills : total (fills q lots) = min q (total lots) := by
  induction lots generalizing q with
  | nil => simp
  | cons lot lots ih =>
      obtain ⟨k, n⟩ := lot
      by_cases hq : q = 0
      · simp [hq]
      · rw [fills_cons hq, total_cons, total_cons, ih]
        omega

/-- Every fill takes something, and from a lot that has it. -/
theorem fills_mem (h : Positive lots) {f : κ × ℕ} (hf : f ∈ fills q lots) :
    0 < f.2 ∧ ∃ lot ∈ lots, lot.1 = f.1 ∧ f.2 ≤ lot.2 := by
  induction lots generalizing q with
  | nil => cases hf
  | cons lot lots ih =>
      obtain ⟨k, n⟩ := lot
      by_cases hq : q = 0
      · rw [hq, fills_zero] at hf
        cases hf
      · rw [fills_cons hq] at hf
        rcases List.mem_cons.mp hf with rfl | hf
        · have hn := h.head
          refine ⟨?_, (k, n), List.mem_cons_self, rfl, Nat.min_le_right q n⟩
          show 0 < min q n
          omega
        · obtain ⟨hpos, lot, hlot, hkey⟩ := ih h.tail hf
          exact ⟨hpos, lot, List.mem_cons_of_mem _ hlot, hkey⟩

/-- What is left is not empty. -/
theorem Positive.rest (h : Positive lots) : Positive (rest q lots) := by
  induction lots generalizing q with
  | nil => exact h
  | cons lot lots ih =>
      obtain ⟨k, n⟩ := lot
      by_cases hn : n ≤ q
      · rw [rest_exhaust hn]
        exact ih h.tail
      · rw [rest_leaves (Nat.lt_of_not_le hn)]
        rintro lot hlot
        rcases List.mem_cons.mp hlot with rfl | hlot
        · show 0 < n - q
          omega
        · exact h.tail lot hlot

/-- The keys that are left were there, in this order. -/
theorem rest_keys : ((rest q lots).map Prod.fst).Sublist (lots.map Prod.fst) := by
  induction lots generalizing q with
  | nil => exact List.Sublist.refl _
  | cons lot lots ih =>
      obtain ⟨k, n⟩ := lot
      by_cases hn : n ≤ q
      · rw [rest_exhaust hn]
        exact ih.cons _
      · rw [rest_leaves (Nat.lt_of_not_le hn)]
        exact List.Sublist.refl _

/-- A demand for more than there is leaves nothing. -/
theorem rest_eq_nil (h : total lots ≤ q) : rest q lots = [] := by
  induction lots generalizing q with
  | nil => rfl
  | cons lot lots ih =>
      obtain ⟨k, n⟩ := lot
      rw [total_cons] at h
      rw [rest_exhaust (by omega)]
      exact ih (by omega)

/-- A lot is filled at most once. -/
theorem length_fills_le : (fills q lots).length ≤ lots.length := by
  induction lots generalizing q with
  | nil => exact Nat.le_refl 0
  | cons lot lots ih =>
      obtain ⟨k, n⟩ := lot
      by_cases hq : q = 0
      · rw [hq, fills_zero]
        exact Nat.zero_le _
      · rw [fills_cons hq]
        exact Nat.succ_le_succ ih

/-- **LOTS USED UP**: of the lots that are filled, at most one is left. -/
theorem length_fills_rest : (fills q lots).length + (rest q lots).length ≤ lots.length + 1 := by
  induction lots generalizing q with
  | nil => exact Nat.zero_le _
  | cons lot lots ih =>
      obtain ⟨k, n⟩ := lot
      by_cases hq : q = 0
      · have hkeys := (@rest_keys κ q ((k, n) :: lots)).length_le
        rw [List.length_map, List.length_map] at hkeys
        rw [hq, fills_zero, ← hq, List.length_nil]
        omega
      · rw [fills_cons hq, List.length_cons, List.length_cons]
        by_cases hn : n ≤ q
        · rw [rest_exhaust hn]
          have hrest := @ih (q - n)
          omega
        · have hzero : q - n = 0 := by omega
          rw [rest_leaves (Nat.lt_of_not_le hn), hzero, fills_zero, List.length_nil,
            List.length_cons]
          omega

/-- **CONCATENATION**: the second part fills what the first one left open. -/
theorem fills_append : fills q (A ++ B) = fills q A ++ fills (q - total A) B := by
  induction A generalizing q with
  | nil => rfl
  | cons lot A ih =>
      obtain ⟨k, n⟩ := lot
      by_cases hq : q = 0
      · simp [hq]
      · rw [List.cons_append, fills_cons hq, fills_cons hq, ih, List.cons_append, total_cons,
          Nat.sub_sub]

/-- Only a taker of nothing, or one that finds nothing, is not filled. -/
theorem fills_eq_nil_iff : fills q lots = [] ↔ q = 0 ∨ lots = [] := by
  cases lots with
  | nil => exact ⟨fun _ => Or.inr rfl, fun _ => rfl⟩
  | cons lot lots =>
      obtain ⟨k, n⟩ := lot
      constructor
      · intro hnil
        by_contra hno
        rw [fills_cons (not_or.mp hno).1] at hnil
        exact List.cons_ne_nil _ _ hnil
      · rintro (rfl | hnil)
        · exact fills_zero _
        · exact absurd hnil (List.cons_ne_nil _ _)

theorem rest_append (h : Positive B) :
    rest q (A ++ B) = rest q A ++ rest (q - total A) B := by
  induction A generalizing q with
  | nil => rfl
  | cons lot A ih =>
      obtain ⟨k, n⟩ := lot
      rw [List.cons_append, total_cons]
      by_cases hn : n ≤ q
      · rw [rest_exhaust hn, rest_exhaust hn, ih, Nat.sub_sub]
      · have hzero : q - (n + total A) = 0 := by omega
        rw [rest_leaves (Nat.lt_of_not_le hn), rest_leaves (Nat.lt_of_not_le hn), hzero,
          rest_zero h, List.cons_append]

/-- **BYSTANDERS**: lots that are not filled may as well not be there. -/
theorem fills_filter (h : Positive lots) {p : κ → Bool}
    (hp : ∀ f ∈ fills q lots, p f.1 = true) :
    fills q (lots.filter (fun lot => p lot.1)) = fills q lots
      ∧ rest q (lots.filter (fun lot => p lot.1))
        = (rest q lots).filter (fun lot => p lot.1) := by
  induction lots generalizing q with
  | nil => exact ⟨rfl, rfl⟩
  | cons lot lots ih =>
      obtain ⟨k, n⟩ := lot
      by_cases hq : q = 0
      · subst hq
        rw [fills_zero, fills_zero, rest_zero h, rest_zero]
        · exact ⟨rfl, rfl⟩
        · exact fun lot hlot => h lot (List.mem_of_mem_filter hlot)
      · rw [fills_cons hq] at hp ⊢
        have hk : p k = true := hp _ List.mem_cons_self
        have hkeep : ∀ (n : ℕ) (lots : List (κ × ℕ)),
            ((k, n) :: lots).filter (fun lot => p lot.1)
              = (k, n) :: lots.filter (fun lot => p lot.1) :=
          fun _ _ => List.filter_cons_of_pos hk
        obtain ⟨hfills, hrest⟩ := ih h.tail fun f hf => hp f (List.mem_cons_of_mem _ hf)
        rw [hkeep]
        constructor
        · rw [fills_cons hq, hfills]
        · by_cases hn : n ≤ q
          · rw [rest_exhaust hn, rest_exhaust hn, hrest]
          · rw [rest_leaves (Nat.lt_of_not_le hn), rest_leaves (Nat.lt_of_not_le hn), hkeep]

/-- Selecting lots splits the total. -/
theorem total_filter (p : κ × ℕ → Bool) (lots : List (κ × ℕ)) :
    total (lots.filter p) + total (lots.filter fun lot => !p lot) = total lots := by
  have hperm := (List.filter_append_perm p lots).map Prod.snd
  rw [← total_append]
  exact hperm.sum_eq

/-- **CONSERVATION**: of the lots with certain keys, what is taken and what is
    left add up to what was there. -/
theorem total_fills_rest (p : κ → Bool) :
    total ((fills q lots).filter fun lot => p lot.1)
        + total ((rest q lots).filter fun lot => p lot.1)
      = total (lots.filter fun lot => p lot.1) := by
  have hcons : ∀ (n : ℕ) (k : κ) (lots : List (κ × ℕ)),
      total (((k, n) :: lots).filter fun lot => p lot.1)
        = (if p k then n else 0) + total (lots.filter fun lot => p lot.1) := by
    intro n k lots
    rw [List.filter_cons]
    split <;> simp
  induction lots generalizing q with
  | nil => rfl
  | cons lot lots ih =>
      obtain ⟨k, n⟩ := lot
      by_cases hn : n ≤ q
      · rw [rest_exhaust hn, hcons]
        by_cases hq : q = 0
        · subst hq
          obtain rfl := Nat.le_zero.mp hn
          have hzero := @ih 0
          rw [fills_zero] at hzero ⊢
          rw [ite_self, Nat.zero_add]
          exact hzero
        · rw [fills_cons hq, hcons, Nat.min_eq_right hn, Nat.add_assoc, ih]
      · have hlt := Nat.lt_of_not_le hn
        rw [rest_leaves hlt, hcons, hcons]
        by_cases hq : q = 0
        · rw [hq, fills_zero]
          simp
        · rw [fills_cons hq, hcons, Nat.sub_eq_zero_of_le (Nat.le_of_lt hlt), fills_zero,
            Nat.min_eq_left (Nat.le_of_lt hlt)]
          split
          · rw [List.filter_nil, total_nil]
            omega
          · rw [List.filter_nil, total_nil]
            omega

/-! ## Two demands, one after the other -/

/-- **SPLITTING**: what two demands leave is what their sum leaves. -/
theorem rest_add {p : ℕ} : rest q (rest p lots) = rest (p + q) lots := by
  induction lots generalizing p q with
  | nil => rfl
  | cons lot lots ih =>
      obtain ⟨k, n⟩ := lot
      by_cases hn : n ≤ p
      · rw [rest_exhaust hn, ih, rest_exhaust (Nat.le_add_right_of_le hn), Nat.sub_add_comm hn]
      · have hlt := Nat.lt_of_not_le hn
        rw [rest_leaves hlt]
        by_cases hq : n - p ≤ q
        · have hsub : q - (n - p) = p + q - n := by omega
          rw [rest_exhaust hq, rest_exhaust (by omega), hsub]
        · rw [rest_leaves (Nat.lt_of_not_le hq), rest_leaves (by omega), Nat.sub_sub]

/-- Two demands take the same as their sum, under any keys. -/
theorem total_fills_add {p : ℕ} (keep : κ → Bool) :
    total ((fills p lots).filter fun lot => keep lot.1)
        + total ((fills q (rest p lots)).filter fun lot => keep lot.1)
      = total ((fills (p + q) lots).filter fun lot => keep lot.1) := by
  have hfirst := @total_fills_rest κ p lots keep
  have hsecond := @total_fills_rest κ q (rest p lots) keep
  have hboth := @total_fills_rest κ (p + q) lots keep
  rw [rest_add] at hsecond
  omega

/-- A lot that both demands fill is filled once by their sum. -/
theorem length_fills_add {p : ℕ} (h : Positive lots) :
    (fills p lots).length + (fills q (rest p lots)).length = (fills (p + q) lots).length
      ∨ (fills p lots).length + (fills q (rest p lots)).length
        = (fills (p + q) lots).length + 1 := by
  induction lots generalizing p q with
  | nil => exact Or.inl rfl
  | cons lot lots ih =>
      obtain ⟨k, n⟩ := lot
      by_cases hp : p = 0
      · left
        rw [hp, fills_zero, rest_zero h, Nat.zero_add, List.length_nil, Nat.zero_add]
      · rw [fills_cons hp, fills_cons (by omega), List.length_cons, List.length_cons]
        by_cases hn : n ≤ p
        · -- the lot is exhausted, and both demands go on in the next one
          rw [rest_exhaust hn, Nat.sub_add_comm hn]
          have hrest := @ih q (p - n) h.tail
          omega
        · -- the first demand ends inside the lot, and the second one begins there
          have hzero : p - n = 0 := by omega
          rw [rest_leaves (Nat.lt_of_not_le hn), hzero, fills_zero, List.length_nil]
          by_cases hq : q = 0
          · left
            have hnone : p + q - n = 0 := by omega
            rw [hnone, hq, fills_zero, fills_zero]
            rfl
          · right
            have hsub : q - (n - p) = p + q - n := by omega
            rw [fills_cons hq, hsub, List.length_cons]
            omega

/-! ## Names

    Where the keys of the lots have different names, a name stands for its lot. -/

section Names

variable {ν : Type} {name : κ → ν} {v : ν}

/-- The fills have the names of their lots. -/
theorem fills_names : ((fills q lots).map fun lot => name lot.1).Sublist
    (lots.map fun lot => name lot.1) := by
  induction lots generalizing q with
  | nil => exact List.Sublist.refl _
  | cons lot lots ih =>
      obtain ⟨k, n⟩ := lot
      by_cases hq : q = 0
      · rw [hq, fills_zero]
        exact List.nil_sublist _
      · rw [fills_cons hq]
        exact ih.cons_cons _

/-- Different names at the head and in the tail. -/
theorem names_ne (h : (((k, n) :: lots).map fun lot => name lot.1).Nodup) :
    (∀ lot ∈ lots, name lot.1 ≠ name k) ∧ (lots.map fun lot => name lot.1).Nodup := by
  rw [List.map_cons, List.nodup_cons] at h
  exact ⟨fun x hx heq => h.1 (List.mem_map.mpr ⟨x, hx, heq⟩), h.2⟩

/-- What is left of some lots when an amount was taken under each name. -/
def drain (name : κ → ν) (taken : ν → ℕ) (lots : List (κ × ℕ)) : List (κ × ℕ) :=
  lots.filterMap fun lot =>
    if lot.2 - taken (name lot.1) = 0 then none else some (lot.1, lot.2 - taken (name lot.1))

@[simp] theorem drain_append {taken : ν → ℕ} :
    drain name taken (A ++ B) = drain name taken A ++ drain name taken B :=
  List.filterMap_append

theorem drain_cons {taken : ν → ℕ} : drain name taken ((k, n) :: lots)
    = (if n - taken (name k) = 0 then [] else [(k, n - taken (name k))])
      ++ drain name taken lots := by
  rw [drain, List.filterMap_cons]
  dsimp only
  by_cases hz : n - taken (name k) = 0
  · rw [if_pos hz, if_pos hz]
    rfl
  · rw [if_neg hz, if_neg hz]
    rfl

theorem drain_congr {taken taken' : ν → ℕ}
    (h : ∀ lot ∈ lots, taken (name lot.1) = taken' (name lot.1)) :
    drain name taken lots = drain name taken' lots :=
  List.filterMap_congr fun lot hlot => by rw [h lot hlot]

/-- Lots from which nothing is taken stay. -/
theorem drain_idle {taken : ν → ℕ} (hpos : Positive lots)
    (h : ∀ lot ∈ lots, taken (name lot.1) = 0) : drain name taken lots = lots := by
  refine (List.filterMap_congr fun lot hlot => ?_).trans List.filterMap_some
  have hn := hpos lot hlot
  rw [h lot hlot, Nat.sub_zero, if_neg (by omega)]

variable [DecidableEq ν]

/-- All that lies under a name. -/
def amount (name : κ → ν) (v : ν) (lots : List (κ × ℕ)) : ℕ :=
  total (lots.filter fun lot => name lot.1 = v)

@[simp] theorem amount_nil : amount name v ([] : List (κ × ℕ)) = 0 := rfl

theorem amount_cons :
    amount name v ((k, n) :: lots) = (if name k = v then n else 0) + amount name v lots := by
  rw [amount, List.filter_cons]
  by_cases hv : name k = v
  · simp [hv, amount]
  · simp [hv, amount]

theorem amount_absent (h : ∀ lot ∈ lots, name lot.1 ≠ v) : amount name v lots = 0 := by
  rw [amount, List.filter_eq_nil_iff.mpr]
  · rfl
  · intro lot hlot
    simpa using h lot hlot

/-- Nothing is filled under a name that no lot has. -/
theorem amount_fills_absent (h : ∀ lot ∈ lots, name lot.1 ≠ v) :
    amount name v (fills q lots) = 0 := by
  refine amount_absent fun f hf heq => ?_
  have hmem := fills_names.subset (List.mem_map_of_mem (f := fun lot => name lot.1) hf)
  obtain ⟨lot, hlot, hname⟩ := List.mem_map.mp hmem
  exact h lot hlot (hname.trans heq)

/-- What is filled of the first lot. -/
theorem amount_fills_head (h : ∀ lot ∈ lots, name lot.1 ≠ name k) :
    amount name (name k) (fills q ((k, n) :: lots)) = min q n := by
  by_cases hq : q = 0
  · rw [hq, fills_zero, amount_nil, Nat.zero_min]
  · rw [fills_cons hq, amount_cons, if_pos rfl, amount_fills_absent h, Nat.add_zero]

/-- What is filled of the others. -/
theorem amount_fills_tail (h : name k ≠ v) :
    amount name v (fills q ((k, n) :: lots)) = amount name v (fills (q - n) lots) := by
  by_cases hq : q = 0
  · rw [hq, fills_zero, Nat.zero_sub, fills_zero]
  · rw [fills_cons hq, amount_cons, if_neg h, Nat.zero_add]

/-- A lot is all that lies under its name. -/
theorem amount_lot (hnodup : (lots.map fun lot => name lot.1).Nodup) {lot : κ × ℕ}
    (hlot : lot ∈ lots) : amount name (name lot.1) lots = lot.2 := by
  induction lots with
  | nil => cases hlot
  | cons first lots ih =>
      obtain ⟨k, n⟩ := first
      obtain ⟨hother, hnodup⟩ := names_ne hnodup
      rcases List.mem_cons.mp hlot with rfl | hlot
      · rw [amount_cons, if_pos rfl, amount_absent hother, Nat.add_zero]
      · rw [amount_cons, if_neg (hother lot hlot).symm, Nat.zero_add, ih hnodup hlot]

/-- No more is filled of a lot than there is. -/
theorem amount_fills_le (hnodup : (lots.map fun lot => name lot.1).Nodup) {lot : κ × ℕ}
    (hlot : lot ∈ lots) : amount name (name lot.1) (fills q lots) ≤ lot.2 := by
  have hsplit := @total_fills_rest κ q lots fun k => decide (name k = name lot.1)
  rw [← amount_lot hnodup hlot, amount, amount, ← hsplit]
  exact Nat.le_add_right _ _

/-- **IN TURN**: when something is filled of a lot, nothing is left of those before it. -/
theorem rest_before (hnodup : (lots.map fun lot => name lot.1).Nodup) {u : ν}
    (h : Before (lots.map fun lot => name lot.1) u v) (hv : 0 < amount name v (fills q lots)) :
    ∀ lot ∈ rest q lots, name lot.1 ≠ u := by
  induction lots generalizing q with
  | nil => cases h
  | cons lot lots ih =>
      obtain ⟨k, n⟩ := lot
      obtain ⟨hother, hnodup⟩ := names_ne hnodup
      rw [List.map_cons, before_cons] at h
      -- the second one is not the first lot, which is therefore exhausted
      have hmem : v ∈ lots.map fun lot => name lot.1 := h.elim Before.right_mem And.right
      obtain ⟨y, hy, rfl⟩ := List.mem_map.mp hmem
      rw [amount_fills_tail (hother y hy).symm] at hv
      have hleft : q - n ≠ 0 := by
        intro hzero
        rw [hzero, fills_zero] at hv
        exact Nat.lt_irrefl 0 hv
      rw [rest_exhaust (by omega)]
      rcases h with h | ⟨rfl, -⟩
      · exact ih hnodup h hv
      · intro x hx
        have hkey := rest_keys.subset (List.mem_map_of_mem (f := Prod.fst) hx)
        obtain ⟨z, hz, heq⟩ := List.mem_map.mp hkey
        rw [← heq]
        exact hother z hz

/-- **LOT BY LOT**: what is left of a lot is what is not filled under its name. -/
theorem rest_eq_drain (hpos : Positive lots) (hnodup : (lots.map fun lot => name lot.1).Nodup) :
    rest q lots = drain name (fun v => amount name v (fills q lots)) lots := by
  induction lots generalizing q with
  | nil => rfl
  | cons lot lots ih =>
      obtain ⟨k, n⟩ := lot
      obtain ⟨hother, hnodup⟩ := names_ne hnodup
      have hn := hpos.head
      have htail : drain name (fun v => amount name v (fills q ((k, n) :: lots))) lots
          = rest (q - n) lots := by
        rw [ih hpos.tail hnodup]
        exact drain_congr fun lot hlot => amount_fills_tail (hother lot hlot).symm
      rw [drain_cons, htail, amount_fills_head hother]
      by_cases hle : n ≤ q
      · rw [if_pos (by omega), rest_exhaust hle, List.nil_append]
      · have hzero : q - n = 0 := by omega
        rw [if_neg (by omega), rest_leaves (Nat.lt_of_not_le hle), hzero, rest_zero hpos.tail,
          Nat.min_eq_left (by omega)]
        rfl

end Names

end GreedyFill
