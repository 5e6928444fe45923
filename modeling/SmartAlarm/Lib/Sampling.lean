-- SUMMARY: Paced sequences of clock samples: a moment that no jump passes over is sampled, and jumped from once.
import Mathlib.Data.List.Chain
import Mathlib.Data.Nat.Init
import Mathlib.Tactic.TypeStar

/-!
# Sampling a clock

A poller reads a clock again and again. Between two samples the clock advances
by at most one tick, unless the first of them jumps: then it advances by at
least one. A moment between the first and the last sample is sampled, possibly
several times, unless a jump passes over it. If every sample of that moment
jumps, exactly one does.
-/

namespace Sampling

variable {α : Type*} (value : α → Nat) (jumps : α → Bool)

variable {value jumps} {T : Nat}

end Sampling
