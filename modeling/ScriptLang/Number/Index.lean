/-! Numbers and counts. A count is a number if it is so small that its neighbours are numbers too, and
a number is an index if it is such a count. -/

namespace ScriptLang.Number

def maxSafe : Nat :=
  (1 <<< 53) - 1

def ofCount? (count : Nat) : Option Float :=
  if count ≤ maxSafe then some (Float.ofNat count) else none

/-- The count that `x` is. Cutting off its fraction leaves the only candidate. -/
def index? (x : Float) : Option Nat :=
  let count := x.toUInt64.toNat
  if count ≤ maxSafe && Float.ofNat count == x then some count else none

end ScriptLang.Number
