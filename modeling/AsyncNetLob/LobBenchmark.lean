import AsyncNetLob.LobOrderBook

/-! # The workload of `BenchmarkLOB`

    The calls that `main` of `BenchmarkLOB.cpp` makes on a default book, for any number of
    iterations (it makes 500000) and whatever its three random distributions yield.  Of
    the measurement only the calls are modelled, not the time they take. -/

namespace Lob

/-- What the distributions yield in one iteration. -/
structure Draw where
  side  : Side
  price : Price
  qty   : Quantity

/-- The ranges of `priceDist` and `qtyDist`. -/
def Draw.InRange (d : Draw) : Prop := (90 ≤ d.price ∧ d.price ≤ 110) ∧ 1 ≤ d.qty ∧ d.qty ≤ 100

/-- The operation of iteration `i`. -/
def benchmarkOp (i : Nat) (d : Draw) : Op :=
  if i % 5 = 0 ∧ i > 10 then .cancelOrder (UInt64.ofNat (i - 5))
  else .addOrder (UInt64.ofNat i) d.side d.price d.qty .limit

/-- The calls from iteration `i` on; `now i` is the clock during iteration `i`. -/
def benchmarkCalls (now : Nat → Nat → Timestamp) : Nat → List Draw → List Call
  | _, [] => []
  | i, d :: draws => ⟨benchmarkOp i d, now i⟩ :: benchmarkCalls now (i + 1) draws

end Lob
