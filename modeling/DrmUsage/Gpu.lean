-- SUMMARY: What is known of a GPU, and what every kind of GPU can be asked to do.
import DrmUsage.Snapshot

/-!
# GPUs

Whoever polls GPUs need not know their makers. A kind of GPU offers what is
known of it once and for all, the clocks that are measured again in every cycle,
and the closing of a cycle.
-/

namespace DrmUsage

/-- What does not change about a GPU. -/
structure Identity where
  /-- The name of the model. -/
  model : Option String := none
  /-- The address on the bus. -/
  pdev : Option String := none
  /-- Whether the GPU is a part of the processor. -/
  integrated : Option Bool := none
deriving DecidableEq, Repr, Inhabited

/-- The clocks of a GPU and their upper limits, in MHz. -/
structure Clocks where
  core : Option UInt32 := none
  coreMax : Option UInt32 := none
  memory : Option UInt32 := none
  memoryMax : Option UInt32 := none
deriving DecidableEq, Repr, Inhabited

/-- The kinds of GPUs that can be polled. -/
class Gpu (δ : Type) where
  /-- What was found out when the GPU was identified. -/
  identity : δ → Identity
  /-- What was measured last. -/
  clocks : δ → Clocks
  /-- Finds out what does not change. -/
  identify : Snapshot → δ → δ
  /-- Measures the clocks again. -/
  measure : Snapshot → δ → δ
  /-- Closes the cycle of the processes' counters. -/
  closeCycle : δ → δ

end DrmUsage
