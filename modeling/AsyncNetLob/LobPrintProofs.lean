import AsyncNetLob.LobDepthProofs
import AsyncNetLob.LobPrint

/-! # What `printBook` shows

    Down the page prices strictly fall, through the asks and on through the bids; the
    line between them stands between `getBestAsk` and `getBestBid` and shows their
    distance, which is never missing while both sides have a level (`Prints`). -/

namespace Lob

open StateExcept SortedMap MachineRun

/-- The first levels of a side, with the volumes they cache. -/
def OrderBook.topLevels (s : OrderBook) (side : Side) (count : Nat) :
    List (Price × Quantity) :=
  ((s.levels side).take count).map fun lv => (lv.price, lv.totalVolume)

/-- The prices on the page, from top to bottom. -/
def printedPrices (lines : List Printed) : List Price :=
  lines.filterMap fun line => match line with
    | .level price _ => some price
    | _ => none

/-- What a page shows of a book. -/
structure Prints (s : OrderBook) (maxLevels : Nat) (lines : List Printed) : Prop where
  /-- The best levels of each side. -/
  page : lines = s.page (s.topLevels .sell maxLevels) (s.topLevels .buy maxLevels)
  falling : (printedPrices lines).Pairwise fun p p' => p' < p
  /-- The levels next to the spread are what the queries return. -/
  best : 0 < maxLevels →
    OrderBook.getBestAsk s = .ok (s.topLevels .sell maxLevels).head? s
      ∧ OrderBook.getBestBid s = .ok (s.topLevels .buy maxLevels).head? s
  /-- The spread is their distance. -/
  spread : ∀ gap, .spread gap ∈ lines → ∃ bid ask bidQty askQty,
    OrderBook.getBestBid s = .ok (some (bid, bidQty)) s
      ∧ OrderBook.getBestAsk s = .ok (some (ask, askQty)) s
      ∧ 0 < gap ∧ gap.toNat + bid.toNat = ask.toNat
  /-- Only the spread of an empty side is missing. -/
  missing : .noSpread ∈ lines ↔ s.levels .buy = [] ∨ s.levels .sell = []
  /-- Where the caches are true, the volumes are what rests. -/
  volumes : TrueDepth s → ∀ price volume, .level price volume ∈ lines →
    ∃ side n, (price, n) ∈ s.depths side ∧ (n < 2 ^ 32 → volume.toNat = n)

section Book

variable {s : OrderBook} {q : LevelPtr → List OrderPtr} {a : Ladder}

/-- The loop reads the levels from its iterator on. -/
theorem Core.listLevels_run (hc : Core s q) (side : Side) (count : Nat)
    {A B : List (Price × LevelPtr)} (hsplit : (s.levelMap side).entries = A ++ B) :
    OrderBook.listLevels side count (B.head?.map Prod.fst) s
      = .ok ((B.take count).map fun e => (e.1, s.volumeOf e.2)) s := by
  induction count generalizing A B with
  | zero =>
      rw [OrderBook.listLevels, List.take_zero]
      rfl
  | succ count ih =>
      cases B with
      | nil => rfl
      | cons e B =>
          obtain ⟨k, l⟩ := e
          have he : (k, l) ∈ (s.levelMap side).entries := by
            rw [hsplit]
            exact List.mem_append_right A List.mem_cons_self
          obtain ⟨lv, hlv, -⟩ := hc.live_level he
          have hvol : s.volumeOf l = lv.totalVolume := by
            rw [Heap.volumeOf, hlv]
            rfl
          have hderef : OrderBook.derefLevel side k s = .ok l s := by
            rw [OrderBook.derefLevel, bind_ok (get_ok s), SMap.find?_split hsplit]
            rfl
          have hnext : OrderBook.nextLevel side k s = .ok (B.head?.map Prod.fst) s := by
            rw [OrderBook.nextLevel, bind_ok (get_ok s), SMap.next?_split hsplit]
            rfl
          have hrest := @ih (A ++ [(k, l)]) B (by rw [hsplit, List.append_assoc]; rfl)
          rw [List.head?_cons, Option.map_some, OrderBook.listLevels, bind_ok hderef,
            bind_ok (liftM_ok (readLevel_ok hlv)), bind_ok hnext, bind_ok hrest, List.take_succ_cons,
            List.map_cons, hvol]
          rfl

/-- A book that is represented is printed. -/
theorem Rep.printBook_run (h : Rep s q a) (maxLevels : Nat) :
    OrderBook.printBook maxLevels s
      = .ok (s.page (s.topLevels .sell maxLevels) (s.topLevels .buy maxLevels)) s := by
  have hread : ∀ side, OrderBook.listLevels side maxLevels (s.levelMap side).first? s
      = .ok (s.topLevels side maxLevels) s := by
    intro side
    have hrun := h.core.listLevels_run side maxLevels
      (List.nil_append (s.levelMap side).entries).symm
    rw [OrderBook.topLevels, h.levels_eq, ← h.view, ← List.map_take, List.map_map]
    exact hrun
  have hasks : OrderBook.listLevels .sell maxLevels s.asks.first? s
      = .ok (s.topLevels .sell maxLevels) s := hread .sell
  have hbids : OrderBook.listLevels .buy maxLevels s.bids.first? s
      = .ok (s.topLevels .buy maxLevels) s := hread .buy
  rw [OrderBook.printBook, bind_ok (get_ok s), bind_ok hasks, bind_ok hbids]
  rfl

/-! ## The prices on the page -/

/-- The best levels of a side come in order. -/
theorem Rep.topLevels_sorted (h : Rep s q a) (hwf : a.WF) (side : Side) (count : Nat) :
    ((s.topLevels side count).map Prod.fst).Pairwise side.comparator := by
  have hprices : (s.topLevels side count).map Prod.fst
      = ((a.rungs side).map Rung.price).take count := by
    rw [OrderBook.topLevels, h.levels_eq, List.map_map, ← List.map_take]
    rfl
  rw [hprices]
  exact (hwf.side side).sorted.sublist (List.take_sublist _ _)

theorem Rep.topLevels_mem (h : Rep s q a) {side : Side} {count : Nat} {price : Price}
    {volume : Quantity} (hmem : (price, volume) ∈ s.topLevels side count) :
    ∃ lv ∈ a.rungs side, lv.price = price ∧ lv.totalVolume = volume := by
  rw [OrderBook.topLevels, h.levels_eq] at hmem
  obtain ⟨lv, hlv, heq⟩ := List.mem_map.mp hmem
  exact ⟨lv, List.mem_of_mem_take hlv, (Prod.mk.inj heq).1, (Prod.mk.inj heq).2⟩

theorem printedPrices_levels (levels : List (Price × Quantity)) :
    printedPrices (levels.map OrderBook.levelLine) = levels.map Prod.fst := by
  induction levels with
  | nil => rfl
  | cons level levels ih => exact congrArg (level.1 :: ·) ih

theorem printedPrices_append (lines lines' : List Printed) :
    printedPrices (lines ++ lines') = printedPrices lines ++ printedPrices lines' :=
  List.filterMap_append

/-- The page shows the prices of the asks in reverse, then those of the bids. -/
theorem printedPrices_page (asks bids : List (Price × Quantity)) :
    printedPrices (s.page asks bids) = (asks.map Prod.fst).reverse ++ bids.map Prod.fst := by
  have hspread : printedPrices [s.spreadLine, .bidsHeading] = [] := by
    rw [OrderBook.spreadLine]
    cases s.getSpread <;> rfl
  have htop : printedPrices [.depthHeading, .asksHeading] = [] := rfl
  have hrule : printedPrices [.rule] = [] := rfl
  rw [OrderBook.page, printedPrices_append, printedPrices_append, printedPrices_append,
    printedPrices_append, htop, hspread, hrule, printedPrices_levels, printedPrices_levels, List.nil_append,
    List.append_nil, List.append_nil, List.map_reverse]

/-- **FALLING PRICES**: the asks fall to the best one, which is above the best bid, and the
    bids fall from there. -/
theorem Rep.page_falling (h : Rep s q a) (hwf : a.WF) (count : Nat) :
    (((s.topLevels .sell count).map Prod.fst).reverse
      ++ (s.topLevels .buy count).map Prod.fst).Pairwise fun p p' => p' < p := by
  refine List.pairwise_append.mpr ⟨?_, h.topLevels_sorted hwf .buy count, ?_⟩
  · exact List.pairwise_reverse.mpr (h.topLevels_sorted hwf .sell count)
  · intro ask hask bid hbid
    obtain ⟨⟨p, v⟩, hp, rfl⟩ := List.mem_map.mp (List.mem_reverse.mp hask)
    obtain ⟨⟨p', v'⟩, hp', rfl⟩ := List.mem_map.mp hbid
    obtain ⟨lv, hlv, rfl, -⟩ := h.topLevels_mem hp
    obtain ⟨lv', hlv', rfl, -⟩ := h.topLevels_mem hp'
    exact hwf.uncrossed .buy lv' hlv' lv hlv

/-! ## The line between the sides -/

/-- The best level of a side is the first one on the page. -/
theorem Rep.bestOf_topLevels (h : Rep s q a) (side : Side) {count : Nat} (hpos : 0 < count) :
    OrderBook.bestOf side s = .ok ((s.topLevels side count).head?) s := by
  obtain ⟨n, rfl⟩ := Nat.exists_eq_succ_of_ne_zero hpos.ne'
  rw [h.bestOf, OrderBook.topLevels, h.levels_eq]
  cases a.rungs side <;> rfl

/-- The spread, if there is one, is the distance of the best levels. -/
theorem Rep.spread_cases (h : Rep s q a) (hwf : a.WF) :
    (∃ bid ask bids asks, a.rungs .buy = bid :: bids ∧ a.rungs .sell = ask :: asks
        ∧ bid.price < ask.price ∧ s.spreadLine = .spread (ask.price - bid.price))
      ∨ (a.rungs .buy = [] ∨ a.rungs .sell = []) ∧ s.spreadLine = .noSpread := by
  have hspread := h.getSpread_eq hwf
  rw [OrderBook.spreadLine, hspread]
  cases hbids : a.rungs .buy with
  | nil => exact Or.inr ⟨Or.inl rfl, rfl⟩
  | cons bid bids =>
      cases hasks : a.rungs .sell with
      | nil => exact Or.inr ⟨Or.inr rfl, rfl⟩
      | cons ask asks =>
          refine Or.inl ⟨bid, ask, bids, asks, rfl, rfl, ?_, rfl⟩
          refine hwf.uncrossed .buy bid ?_ ask ?_
          · rw [hbids]
            exact List.mem_cons_self
          · show ask ∈ a.rungs .sell
            rw [hasks]
            exact List.mem_cons_self

/-- A line is a heading, the spread, or a level that was read. -/
theorem mem_page {asks bids : List (Price × Quantity)} {line : Printed}
    (h : line ∈ s.page asks bids) :
    line ∈ [Printed.depthHeading, .asksHeading, .bidsHeading, .rule] ∨ line = s.spreadLine
      ∨ ∃ level, (level ∈ asks ∨ level ∈ bids) ∧ OrderBook.levelLine level = line := by
  simp only [OrderBook.page, List.mem_append, List.mem_cons, List.mem_map, List.mem_reverse,
    List.not_mem_nil, or_false] at h ⊢
  rcases h with ((((rfl | rfl) | ⟨level, hlevel, rfl⟩) | rfl | rfl) | ⟨level, hlevel, rfl⟩) | rfl
  · exact Or.inl (Or.inl rfl)
  · exact Or.inl (Or.inr (Or.inl rfl))
  · exact Or.inr (Or.inr ⟨level, Or.inl hlevel, rfl⟩)
  · exact Or.inr (Or.inl rfl)
  · exact Or.inl (Or.inr (Or.inr (Or.inl rfl)))
  · exact Or.inr (Or.inr ⟨level, Or.inr hlevel, rfl⟩)
  · exact Or.inl (Or.inr (Or.inr (Or.inr rfl)))

theorem spreadLine_mem_page {asks bids : List (Price × Quantity)} :
    s.spreadLine ∈ s.page asks bids := by
  simp [OrderBook.page]

/-- The line of a level shows a level that was read. -/
theorem level_mem_page {asks bids : List (Price × Quantity)} {price : Price} {volume : Quantity}
    (h : .level price volume ∈ s.page asks bids) :
    (price, volume) ∈ asks ∨ (price, volume) ∈ bids := by
  rcases mem_page h with hfixed | hspread | ⟨⟨p, v⟩, hlevel, heq⟩
  · simp at hfixed
  · rw [OrderBook.spreadLine] at hspread
    split at hspread <;> cases hspread
  · obtain ⟨rfl, rfl⟩ := Printed.level.inj heq
    exact hlevel

/-- Only the line between the sides shows a spread, or misses one. -/
theorem spread_mem_page {asks bids : List (Price × Quantity)} {line : Printed}
    (hkind : (∃ gap, line = .spread gap) ∨ line = .noSpread) :
    line ∈ s.page asks bids ↔ s.spreadLine = line := by
  constructor
  · intro h
    rcases mem_page h with hfixed | hspread | ⟨level, -, heq⟩
    · rcases hkind with ⟨gap, rfl⟩ | rfl
      · simp at hfixed
      · simp at hfixed
    · exact hspread.symm
    · rcases hkind with ⟨gap, rfl⟩ | rfl
      · cases heq
      · cases heq
  · rintro rfl
    exact spreadLine_mem_page

/-- **THE PAGE** of a represented book. -/
theorem Rep.prints (h : Rep s q a) (hwf : a.WF) (maxLevels : Nat) :
    Prints s maxLevels
      (s.page (s.topLevels .sell maxLevels) (s.topLevels .buy maxLevels)) := by
  have hspread := h.spread_cases hwf
  constructor
  case page => rfl
  case falling =>
    rw [printedPrices_page]
    exact h.page_falling hwf maxLevels
  case best =>
    intro hpos
    exact ⟨h.bestOf_topLevels .sell hpos, h.bestOf_topLevels .buy hpos⟩
  case spread =>
    intro gap hmem
    rw [spread_mem_page (Or.inl ⟨gap, rfl⟩)] at hmem
    rcases hspread with ⟨bid, ask, bids, asks, hbids, hasks, hlt, hshown⟩ | ⟨-, hnone⟩
    · rw [hshown] at hmem
      obtain rfl := Printed.spread.inj hmem
      have hbid := h.bestOf .buy
      have hask := h.bestOf .sell
      rw [hbids] at hbid
      rw [hasks] at hask
      have hnat := UInt64.lt_iff_toNat_lt.mp hlt
      have hsub := UInt64.toNat_sub_of_le _ _ (UInt64.le_of_lt hlt)
      refine ⟨bid.price, ask.price, bid.totalVolume, ask.totalVolume, hbid, hask, ?_, ?_⟩
      · rw [UInt64.lt_iff_toNat_lt, hsub]
        show 0 < _
        omega
      · rw [hsub]
        omega
    · rw [hnone] at hmem
      cases hmem
  case missing =>
    rw [spread_mem_page (Or.inr rfl), h.levels_eq, h.levels_eq]
    rcases hspread with ⟨bid, ask, bids, asks, hbids, hasks, -, hshown⟩ | ⟨hempty, hnone⟩
    · rw [hshown, hbids, hasks]
      refine iff_of_false (fun heq => by cases heq) ?_
      rintro (hnil | hnil)
      · cases hnil
      · cases hnil
    · exact iff_of_true hnone hempty
  case volumes =>
    intro htrue price volume hmem
    have hread : ∃ side, (price, volume) ∈ s.topLevels side maxLevels :=
      (level_mem_page hmem).elim (fun hask => ⟨.sell, hask⟩) fun hbid => ⟨.buy, hbid⟩
    obtain ⟨side, hlevel⟩ := hread
    obtain ⟨lv, hlv, rfl, rfl⟩ := h.topLevels_mem hlevel
    rw [← h.levels_eq] at hlv
    exact ⟨side, lv.depth, List.mem_map_of_mem hlv, htrue.levels side lv hlv⟩

end Book

/-- **THE PRINTED BOOK**: after every run `printBook` writes its page and leaves the book as it
    is. -/
theorem reached_prints (maxOrders maxLevels : Nat) (calls : List Call) (count : Nat) :
    ∃ lines, OrderBook.printBook count (OrderBook.reached maxOrders maxLevels calls)
        = .ok lines (OrderBook.reached maxOrders maxLevels calls)
      ∧ Prints (OrderBook.reached maxOrders maxLevels calls) count lines := by
  obtain ⟨q, hrep⟩ := Rep.reached maxOrders maxLevels calls
  exact ⟨_, hrep.printBook_run count,
    hrep.prints (Ladder.WF.reached maxOrders maxLevels calls) count⟩

end Lob
