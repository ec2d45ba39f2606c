import AsyncNetLob.LobBenchmark
import AsyncNetLob.LobPriceBandProofs

/-! # What the workload measures

    Every fifth operation from the fifteenth on cancels the id of five operations
    before, and that operation was itself a cancellation, except for the first time.
    So one id is ever cancelled that was added; and since all prices lie in a band of
    21 of them, the workload runs until it fills the book (`benchmark_cancels`). -/

namespace Lob

/-- The prices there are. -/
def benchmarkBand : Finset Price := (Finset.range 21).image fun k => UInt64.ofNat (90 + k)

/-- There are far fewer than level slots. -/
theorem benchmarkBand_card : benchmarkBand.card ≤ defaultMaxLevels := by
  have hle : benchmarkBand.card ≤ (Finset.range 21).card := Finset.card_image_le
  rw [Finset.card_range] at hle
  exact hle.trans (by decide)

/-- Every call is that of an iteration. -/
theorem mem_benchmarkCalls {now : Nat → Nat → Timestamp} {i : Nat} {draws : List Draw} {c : Call}
    (h : c ∈ benchmarkCalls now i draws) :
    ∃ j d, j < i + draws.length ∧ d ∈ draws ∧ c.op = benchmarkOp j d := by
  induction draws generalizing i with
  | nil => cases h
  | cons d draws ih =>
      rw [List.length_cons]
      rcases List.mem_cons.mp h with rfl | h
      · exact ⟨i, d, by omega, List.mem_cons_self, rfl⟩
      · obtain ⟨j, d', hlt, hd, hop⟩ := ih h
        exact ⟨j, d', by omega, List.mem_cons_of_mem _ hd, hop⟩

/-- An added id is that of an iteration that adds. -/
theorem benchmarkOp_add {i : Nat} {d : Draw} {id : OrderId} {side : Side} {price : Price}
    {qty : Quantity} {type : OrderType}
    (h : benchmarkOp i d = .addOrder id side price qty type) :
    id = UInt64.ofNat i ∧ price = d.price ∧ (i % 5 ≠ 0 ∨ i ≤ 10) := by
  rw [benchmarkOp] at h
  split at h
  · cases h
  · rename_i hno
    cases h
    exact ⟨rfl, rfl, by omega⟩

theorem benchmarkOp_cancel {i : Nat} {d : Draw} {id : OrderId}
    (h : benchmarkOp i d = .cancelOrder id) :
    id = UInt64.ofNat (i - 5) ∧ i % 5 = 0 ∧ 10 < i := by
  rw [benchmarkOp] at h
  split at h
  · rename_i hyes
    cases h
    exact ⟨rfl, hyes⟩
  · cases h

theorem benchmarkOp_within {i : Nat} {d : Draw} (hd : d.InRange) :
    (benchmarkOp i d).Within benchmarkBand := by
  rw [benchmarkOp]
  split
  · trivial
  · intro _
    obtain ⟨⟨hlow, hhigh⟩, -⟩ := hd
    rw [UInt64.le_iff_toNat_le] at hlow hhigh
    have hlow' : 90 ≤ d.price.toNat := hlow
    have hhigh' : d.price.toNat ≤ 110 := hhigh
    refine Finset.mem_image.mpr ⟨d.price.toNat - 90, Finset.mem_range.mpr (by omega), ?_⟩
    have hsum : 90 + (d.price.toNat - 90) = d.price.toNat := by omega
    rw [hsum, UInt64.ofNat_toNat]

/-- **ONE CANCELLATION**: whatever is drawn, `cancelOrder` finds no order but the one with the
    id 10, and the workload only stops when every order slot holds a resting order. -/
theorem benchmark_cancels {now : Nat → Nat → Timestamp} {draws : List Draw}
    (hlength : draws.length < 2 ^ 64) (hrange : ∀ d ∈ draws, d.InRange)
    {before after : List Call} {c : Call}
    (hsplit : benchmarkCalls now 1 draws = before ++ c :: after) :
    (∀ id, c.op = .cancelOrder id → id ≠ 10 →
        OrderBook.step c (OrderBook.reached defaultMaxOrders defaultMaxLevels before)
          = (.cancelled false, OrderBook.reached defaultMaxOrders defaultMaxLevels before))
      ∧ ∀ f, (OrderBook.step c (OrderBook.reached defaultMaxOrders defaultMaxLevels before)).1
          = .threw f →
        (OrderBook.reached defaultMaxOrders defaultMaxLevels before).activeOrdersCount
          = defaultMaxOrders := by
  have hearlier : ∀ c' ∈ before ++ [c],
      ∃ j d, j < 1 + draws.length ∧ d ∈ draws ∧ c'.op = benchmarkOp j d := by
    intro c' hc'
    refine @mem_benchmarkCalls now 1 draws c' ?_
    rw [hsplit, List.append_cons]
    exact List.mem_append_left _ hc'
  have hwithin : ∀ c' ∈ before ++ [c], c'.op.Within benchmarkBand := by
    intro c' hc'
    obtain ⟨j, d, -, hd, hop⟩ := hearlier c' hc'
    rw [hop]
    exact benchmarkOp_within (hrange d hd)
  constructor
  · intro id hop hid
    obtain ⟨j, d, hj, -, hcop⟩ := hearlier c (List.mem_append_right _ List.mem_cons_self)
    obtain ⟨hj5, hmod, hten⟩ := benchmarkOp_cancel (hcop.symm.trans hop)
    obtain ⟨q, hrep⟩ := Rep.reached defaultMaxOrders defaultMaxLevels before
    -- an order with this id would have been added in an iteration that cancels
    have hnone : (OrderBook.reached defaultMaxOrders defaultMaxLevels before).orderMap.lookup id
        = none := by
      rw [hrep.lookup_none]
      intro hrests
      obtain ⟨side, y, hy, hyid⟩ := rests_lots.mp hrests
      obtain ⟨c', hc', qty, hop'⟩ := reached_mem_lots hy
      obtain ⟨j', d', hj', -, hcop'⟩ := hearlier c' (List.mem_append_left _ hc')
      obtain ⟨hid', -, hadds⟩ := benchmarkOp_add (hcop'.symm.trans hop')
      have hsame : (UInt64.ofNat j').toNat = (UInt64.ofNat (j - 5)).toNat := by
        rw [← hid', hyid, hj5]
      have hsize : UInt64.size = 2 ^ 64 := rfl
      rw [UInt64.toNat_ofNat_of_lt' (by omega), UInt64.toNat_ofNat_of_lt' (by omega)] at hsame
      have hfifteen : j = 15 := by omega
      rw [hfifteen] at hj5
      exact hid hj5
    rw [OrderBook.step, hop]
    dsimp only
    rw [OrderBook.cancelOrder, StateExcept.bind_ok (StateExcept.get_ok _), hnone]
    rfl
  · intro f hthrew
    exact reached_full benchmarkBand_card (fun c' hc' => hwithin c' (List.mem_append_left _ hc'))
      (hwithin c (List.mem_append_right _ List.mem_cons_self)) hthrew

/-- The twentieth operation cancels the fifteenth, which was a cancellation. -/
theorem benchmark_cancels_twentieth :
    (∀ id, Op.cancelOrder 15 = .cancelOrder id → id ≠ 10 →
        OrderBook.step ⟨.cancelOrder 15, fun _ => 0⟩
            (OrderBook.reached defaultMaxOrders defaultMaxLevels
              (benchmarkCalls (fun _ _ => 0) 1 (List.replicate 19 ⟨.buy, 100, 1⟩)))
          = (.cancelled false, OrderBook.reached defaultMaxOrders defaultMaxLevels
              (benchmarkCalls (fun _ _ => 0) 1 (List.replicate 19 ⟨.buy, 100, 1⟩))))
      ∧ ∀ f, (OrderBook.step ⟨.cancelOrder 15, fun _ => 0⟩
            (OrderBook.reached defaultMaxOrders defaultMaxLevels
              (benchmarkCalls (fun _ _ => 0) 1 (List.replicate 19 ⟨.buy, 100, 1⟩)))).1 = .threw f →
        (OrderBook.reached defaultMaxOrders defaultMaxLevels
          (benchmarkCalls (fun _ _ => 0) 1 (List.replicate 19 ⟨.buy, 100, 1⟩))).activeOrdersCount
          = defaultMaxOrders :=
  @benchmark_cancels (fun _ _ => 0) (List.replicate 20 ⟨.buy, 100, 1⟩) (by decide) (by
    intro d hd
    rw [List.eq_of_mem_replicate hd]
    exact ⟨by decide, by decide⟩) _ [] ⟨.cancelOrder 15, fun _ => 0⟩ rfl

end Lob
