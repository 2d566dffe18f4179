import LazyQuery.Error
import LazyQuery.Memory.Footprint

/-!
# The memory budget

A `Budget` counts the bytes in use against a capacity and remembers their peak. A `Guard` stands for
bytes in use; it is acquired from the budget, can be resized, and gives its bytes back when
released.

A checked reservation is refused if it would exceed the capacity. An unchecked one is always
granted: it accounts for what is in memory already. Sizes are 64-bit words, and the count wraps
around.
-/

set_option autoImplicit false

namespace LazyQuery

/-- Bytes in use under a capacity. -/
structure Budget where
  capacity : UInt64
  used : UInt64
  peak : UInt64
  deriving DecidableEq, Inhabited

/-- A share of the bytes in use. -/
structure Guard where
  bytes : UInt64
  tag : String
  deriving DecidableEq, Inhabited

namespace Budget

/-- A budget with nothing in use. -/
def ofCapacity (capacity : UInt64) : Budget := ⟨capacity, 0, 0⟩

/-- The bytes that are still free. -/
def available (b : Budget) : UInt64 := saturatingSub b.capacity b.used

/-- Count `used` bytes as in use, raising the peak if they exceed it. -/
def withUsed (b : Budget) (used : UInt64) : Budget :=
  { b with used := used, peak := max b.peak used }

/-- Reserve bytes if the capacity allows it. -/
def reserve? (b : Budget) (bytes : UInt64) : Option Budget :=
  let next := saturatingAdd b.used bytes
  if b.capacity < next then none else some (b.withUsed next)

/-- Reserve bytes whatever the capacity. -/
def reserve (b : Budget) (bytes : UInt64) : Budget := b.withUsed (b.used + bytes)

/-- Give bytes back. -/
def giveBack (b : Budget) (bytes : UInt64) : Budget := { b with used := b.used - bytes }

/-- A guard for bytes, if the capacity allows it; nothing is always allowed. -/
def tryAcquire (b : Budget) (bytes : UInt64) (tag : String) : Option (Guard × Budget) :=
  if bytes = 0 then some (⟨0, tag⟩, b)
  else (b.reserve? bytes).map fun b' => (⟨bytes, tag⟩, b')

/-- A guard for bytes, or the reason for its refusal. -/
def acquire (b : Budget) (bytes : UInt64) (tag : String) : Except BudgetExceeded (Guard × Budget) :=
  match b.tryAcquire bytes tag with
  | some r => pure r
  | none => throw ⟨tag, bytes, b.capacity, b.used⟩

/-- A guard for bytes that are in memory already. -/
def acquireUnchecked (b : Budget) (bytes : UInt64) (tag : String) : Guard × Budget :=
  (⟨bytes, tag⟩, b.reserve bytes)

/-- Resize a guard if the capacity allows it; shrinking is always allowed. -/
def tryResize (b : Budget) (g : Guard) (bytes : UInt64) : Bool × Guard × Budget :=
  if bytes = g.bytes then (true, g, b)
  else if bytes < g.bytes then (true, { g with bytes := bytes }, b.giveBack (g.bytes - bytes))
  else
    match b.reserve? (bytes - g.bytes) with
    | some b' => (true, { g with bytes := bytes }, b')
    | none => (false, g, b)

/-- Resize a guard to what it really stands for. -/
def resizeUnchecked (b : Budget) (g : Guard) (bytes : UInt64) : Guard × Budget :=
  match b.tryResize g bytes with
  | (true, g', b') => (g', b')
  | (false, _, _) => ({ g with bytes := bytes }, b.reserve (bytes - g.bytes))

/-- Release a guard. -/
def release (b : Budget) (g : Guard) : Budget := b.giveBack g.bytes

end Budget
end LazyQuery
