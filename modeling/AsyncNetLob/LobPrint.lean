import AsyncNetLob.LobOrderBook

/-! # `printBook`

    `OrderBook::printBook`, as the lines it writes to the standard output; `text` is
    what is written of a line.  The two loops read the levels of a side through
    its iterators, best price first; the asks are written in reverse. -/

namespace Lob

/-- A line of the output. -/
inductive Printed where
  | depthHeading
  | asksHeading
  | bidsHeading
  | level (price : Price) (volume : Quantity)
  | spread (gap : Price)
  | noSpread
  | rule
  deriving DecidableEq

/-- `std::setw`: at least `width` characters, right-adjusted. -/
def setw (width : Nat) (text : String) : String :=
  "".pushn ' ' (width - text.length) ++ text

def Printed.text : Printed → String
  | .depthHeading => "\n------------------ MARKET DEPTH ------------------\n"
  | .asksHeading => " ASKS (SELLS)\n"
  | .bidsHeading => " BIDS (BUYS)\n"
  | .level price volume =>
      "   Price: " ++ setw 8 (toString price) ++ " | Vol: " ++ setw 6 (toString volume) ++ "\n"
  | .spread gap =>
      "   ---------------- SPREAD: " ++ toString gap ++ " --------------- \n"
  | .noSpread => "   ---------------- SPREAD: N/A -------------- \n"
  | .rule => "--------------------------------------------------\n"

namespace OrderBook

/-- The levels from an iterator on, at most `count` of them. -/
def listLevels (side : Side) : Nat → Option Price → BookM (List (Price × Quantity))
  | 0, _ => return []
  | _ + 1, none => return []
  | count + 1, some it => do
      let volume := (← readLevel (← derefLevel side it)).totalVolume
      let next ← nextLevel side it
      let levels ← listLevels side count next
      return (it, volume) :: levels

/-- The line of a level. -/
def levelLine (level : Price × Quantity) : Printed := .level level.1 level.2

/-- The line between the asks and the bids. -/
def spreadLine (s : OrderBook) : Printed :=
  match s.getSpread with
  | some gap => .spread gap
  | none => .noSpread

/-- What is written of the levels that were read. -/
def page (s : OrderBook) (askList bidList : List (Price × Quantity)) : List Printed :=
  [.depthHeading, .asksHeading] ++ askList.reverse.map levelLine
    ++ [s.spreadLine, .bidsHeading] ++ bidList.map levelLine ++ [.rule]

/-- `OrderBook::printBook`. -/
def printBook (maxLevels : Nat) : BookM (List Printed) := do
  let s ← get
  let askList ← listLevels .sell maxLevels s.asks.first?
  let bidList ← listLevels .buy maxLevels s.bids.first?
  return s.page askList bidList

end OrderBook

end Lob
