import AsyncNetLob.GreedyFillProofs
import Mathlib.Algebra.Order.Monoid.Defs
import Mathlib.Algebra.Order.Monoid.Unbundled.Pow
import Mathlib.Tactic.Abel

/-! # Filling the cheapest lots first costs least

    Each unit under a key has a cost.  An ALLOTMENT takes some amount from every
    lot; where the lots come in order of cost, no allotment of the same total costs
    less than the greedy fill (`fills_cheapest`), and the greedy fill is one itself
    (`worth_filled`).

    Costs lie in any ordered commutative monoid; in its order dual the greedy fill
    of the dearest lots first is worth most. -/

namespace GreedyFill

variable {κ ν M : Type} [AddCommMonoid M]

/-- What some lots cost. -/
def worth (cost : κ → M) (lots : List (κ × ℕ)) : M :=
  (lots.map fun lot => lot.2 • cost lot.1).sum

/-- The amounts `take` from the lots, by their keys. -/
def allot (take : κ → ℕ) (lots : List (κ × ℕ)) : List (κ × ℕ) :=
  lots.map fun lot => (lot.1, take lot.1)

variable {cost : κ → M} {take : κ → ℕ} {lots : List (κ × ℕ)} {k : κ} {n q : ℕ}

@[simp] theorem worth_nil : worth cost ([] : List (κ × ℕ)) = 0 := rfl

@[simp] theorem worth_cons : worth cost ((k, n) :: lots) = n • cost k + worth cost lots := by
  simp [worth]

@[simp] theorem allot_nil : allot take ([] : List (κ × ℕ)) = [] := rfl

@[simp] theorem allot_cons :
    allot take ((k, n) :: lots) = (k, take k) :: allot take lots := rfl

/-! ## The exchange -/

section Order

variable [PartialOrder M] [IsOrderedAddMonoid M]

/-- Every unit costs at least what the cheapest one does. -/
theorem worth_ge {c : M} (h : ∀ lot ∈ lots, c ≤ cost lot.1) :
    total lots • c ≤ worth cost lots := by
  induction lots with
  | nil => simp
  | cons lot lots ih =>
      obtain ⟨k, n⟩ := lot
      rw [total_cons, worth_cons, add_nsmul]
      exact add_le_add (nsmul_le_nsmul_right (h _ List.mem_cons_self) n)
        (ih fun x hx => h x (List.mem_cons_of_mem _ hx))

/-- **EXCHANGE**: an allotment that takes `d` units more than the greedy fill costs
    more by at least `d` of the cheapest units. -/
theorem fills_exchange {c : M} {d : ℕ}
    (hsorted : lots.Pairwise fun x y => cost x.1 ≤ cost y.1)
    (hc : ∀ lot ∈ lots, c ≤ cost lot.1) (htake : ∀ lot ∈ lots, take lot.1 ≤ lot.2)
    (htotal : total (allot take lots) = total (fills q lots) + d) :
    worth cost (fills q lots) + d • c ≤ worth cost (allot take lots) := by
  induction lots generalizing q d c with
  | nil =>
      obtain rfl : d = 0 := by simpa using htotal.symm
      simp
  | cons lot lots ih =>
      obtain ⟨k, n⟩ := lot
      obtain ⟨hk, hsorted⟩ := List.pairwise_cons.mp hsorted
      have hck : c ≤ cost k := hc _ List.mem_cons_self
      have hle : take k ≤ n := htake _ List.mem_cons_self
      have htake' : ∀ lot ∈ lots, take lot.1 ≤ lot.2 :=
        fun x hx => htake x (List.mem_cons_of_mem _ hx)
      rw [allot_cons, total_cons] at htotal
      rw [allot_cons, worth_cons]
      by_cases hq : q = 0
      · -- the greedy fill takes nothing
        have hall : ∀ lot ∈ allot take lots, c ≤ cost lot.1 := by
          intro lot hlot
          obtain ⟨x, hx, rfl⟩ := List.mem_map.mp hlot
          exact hc x (List.mem_cons_of_mem _ hx)
        rw [hq, fills_zero, total_nil, Nat.zero_add] at htotal
        rw [hq, fills_zero, worth_nil, zero_add, ← htotal, add_nsmul]
        exact add_le_add (nsmul_le_nsmul_right hck _) (worth_ge hall)
      · rw [fills_cons hq, total_cons] at htotal
        rw [fills_cons hq, worth_cons]
        by_cases ht : take k ≤ min q n
        · -- what is not taken from this lot is taken from dearer ones
          obtain ⟨e, he⟩ := Nat.exists_eq_add_of_le ht
          have hrest := @ih (q - n) (cost k) (e + d) hsorted hk htake' (by omega)
          calc min q n • cost k + worth cost (fills (q - n) lots) + d • c
              ≤ min q n • cost k + worth cost (fills (q - n) lots) + d • cost k :=
                add_le_add_right (nsmul_le_nsmul_right hck d) _
            _ = take k • cost k + (worth cost (fills (q - n) lots) + (e + d) • cost k) := by
                rw [he, add_nsmul, add_nsmul]
                abel
            _ ≤ take k • cost k + worth cost (allot take lots) := add_le_add_right hrest _
        · -- the demand ends in this lot
          obtain ⟨e, he⟩ := Nat.exists_eq_add_of_le (Nat.le_of_lt (Nat.lt_of_not_le ht))
          have hend : q - n = 0 := by omega
          rw [hend, fills_zero, total_nil] at htotal
          have hrest := @ih 0 c (total (allot take lots)) hsorted
            (fun x hx => hc x (List.mem_cons_of_mem _ hx)) htake'
            (by rw [fills_zero, total_nil, Nat.zero_add])
          rw [fills_zero, worth_nil, zero_add] at hrest
          have hd : d = e + total (allot take lots) := by omega
          rw [hend, fills_zero, worth_nil, add_zero]
          calc min q n • cost k + d • c
              = min q n • cost k + (e • c + total (allot take lots) • c) := by
                rw [hd, add_nsmul]
            _ ≤ min q n • cost k + (e • cost k + worth cost (allot take lots)) :=
                add_le_add_right (add_le_add (nsmul_le_nsmul_right hck e) hrest) _
            _ = take k • cost k + worth cost (allot take lots) := by
                rw [he, add_nsmul]
                abel

/-- **CHEAPEST**: of all allotments with its total, the greedy fill costs least. -/
theorem fills_cheapest (hsorted : lots.Pairwise fun x y => cost x.1 ≤ cost y.1)
    (htake : ∀ lot ∈ lots, take lot.1 ≤ lot.2)
    (htotal : total (allot take lots) = total (fills q lots)) :
    worth cost (fills q lots) ≤ worth cost (allot take lots) := by
  cases lots with
  | nil => simp
  | cons lot lots =>
      have hleast : ∀ x ∈ lot :: lots, cost lot.1 ≤ cost x.1 := by
        intro x hx
        rcases List.mem_cons.mp hx with rfl | hx
        · exact le_refl _
        · exact List.rel_of_pairwise_cons hsorted hx
      have h := fills_exchange (d := 0) hsorted hleast htake htotal
      rwa [zero_nsmul, add_zero] at h

end Order

/-! ## The greedy fill is an allotment -/

/-- **ALLOTTED**: the greedy fill takes from each lot what it fills under its name. -/
theorem worth_filled [DecidableEq ν] {name : κ → ν}
    (hnodup : (lots.map fun lot => name lot.1).Nodup) :
    worth cost (allot (fun k => amount name (name k) (fills q lots)) lots)
      = worth cost (fills q lots) := by
  induction lots generalizing q with
  | nil => rfl
  | cons lot lots ih =>
      obtain ⟨k, n⟩ := lot
      obtain ⟨hother, hnodup⟩ := names_ne hnodup
      have htail : allot (fun k' => amount name (name k') (fills q ((k, n) :: lots))) lots
          = allot (fun k' => amount name (name k') (fills (q - n) lots)) lots :=
        List.map_congr_left fun lot hlot =>
          congrArg (Prod.mk lot.1) (amount_fills_tail (hother lot hlot).symm)
      rw [allot_cons, htail, worth_cons, amount_fills_head hother, ih hnodup]
      by_cases hq : q = 0
      · rw [hq, Nat.zero_min, zero_nsmul, Nat.zero_sub, fills_zero, fills_zero, zero_add]
      · rw [fills_cons hq, worth_cons]

/-- The total is what the lots cost at one for each unit. -/
theorem total_eq_worth (lots : List (κ × ℕ)) : total lots = worth (fun _ => 1) lots := by
  rw [total, worth]
  exact congrArg List.sum (List.map_congr_left fun lot _ => (Nat.mul_one lot.2).symm)

end GreedyFill
