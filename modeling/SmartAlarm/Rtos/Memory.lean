-- SUMMARY: `rt_Memory.c`: the pool of bytes that the stacks of threads are taken from.
import SmartAlarm.Lib.Linked
import SmartAlarm.Lib.Machine
import SmartAlarm.Rtos.List
import Mathlib.Logic.Function.Basic

/-!
# The memory pool

The records `MEMP` stand in the pool itself, each in front of the block that it
describes, and are linked in the order of their addresses. The first stands where
the pool begins, with or without a block. The last is only a link at the very end.
What lies between a block and the next record is free.

An address is a number below 2^32, and what a client writes into its block is not
seen here.
-/

namespace Rtx

open Function

/-- The records `MEMP` by their addresses. -/
structure Mem where
  next : Nat → Option Nat
  len : Nat → Nat

inductive MemInput where
  | rt_alloc_mem (size : UInt32)
  | rt_free_mem (mem : UInt32)
deriving DecidableEq, Repr

inductive MemEvent where
  /-- What `rt_alloc_mem` returns for a size. -/
  | allocated (size : Nat) (mem : Option Nat)
  /-- What `rt_free_mem` returns, `true` for 0. -/
  | freed (mem : Nat) (ok : Bool)
deriving DecidableEq, Repr

namespace Mem

/-- `rt_init_mem`, with a pool that is not `NULL`. -/
def rt_init_mem (m : Mem) (pool size : Nat) : Option Mem :=
  if size < 8 then none
  else
    let stop := u32 (pool + size + 4294967292)
    some
      { next := update (update m.next pool (some stop)) stop none
        len := update m.len pool 0 }

/-- The bytes that a block of `size` takes with its record, a multiple of 4. -/
def whole (size : Nat) : Nat := u32 (u32 (size + 8) + 3) / 4 * 4

/-- What is free behind the block of `p_search`. -/
def hole_size (m : Mem) (p_search : Nat) : Nat :=
  u32 (u32 ((m.next p_search).getD 0 + 4294967296 - p_search) + 4294967296 - m.len p_search)

/-- The loop of `rt_alloc_mem`, for `k` passes at most. -/
def alloc_loop (m : Mem) (size : Nat) : Nat → Nat → Option (Option Nat)
  | 0, _ => none
  | k + 1, p_search =>
    if size ≤ m.hole_size p_search then some (some p_search)
    else
      match m.next p_search with
      | none   => none
      | some p => if m.next p = none then some none else m.alloc_loop size k p

/-- The block that `rt_alloc_mem` takes from the hole behind `p_search`. -/
def take (m : Mem) (p_search size : Nat) : Mem × Option Nat :=
  -- The first record, when it has no block, needs no new one.
  if m.len p_search = 0 then ({ m with len := update m.len p_search size }, some (u32 (p_search + 8)))
  else
    let p_new := u32 (p_search + m.len p_search)
    ({ next := Linked.insertAfter m.next p_search p_new, len := update m.len p_new size },
      some (u32 (p_new + 8)))

/-- `rt_alloc_mem` -/
def rt_alloc_mem (m : Mem) (pool size : Nat) : Option (Mem × Option Nat) :=
  if size = 0 then some (m, none)
  else do
    match ← m.alloc_loop (whole size) 4294967296 pool with
    | none          => return (m, none)
    | some p_search => return m.take p_search (whole size)

/-- The loop of `rt_free_mem`, for `k` passes at most, with what it leaves in `p_prev`. -/
def free_loop (m : Mem) (p_return : Nat) : Nat → Option Nat → Nat → Option (Option (Option Nat))
  | 0, _, _ => none
  | k + 1, p_prev, p_search =>
    if p_search = p_return then some (some p_prev)
    else
      match m.next p_search with
      | none   => some none
      | some p => m.free_loop p_return k (some p_search) p

/-- What `rt_free_mem` does with what its loop found. -/
def give_back (m : Mem) (p_return : Nat) : Option (Option Nat) → Mem × Bool
  | none               => (m, false)
  | some none          => ({ m with len := update m.len p_return 0 }, true)
  | some (some p_prev) => ({ m with next := Linked.removeAfter m.next p_prev p_return }, true)

/-- `rt_free_mem`, with `(U32)mem - sizeof(MEMP)` for `p_return`. -/
def rt_free_mem (m : Mem) (pool mem : Nat) : Option (Mem × Bool) :=
  if mem = 0 then some (m, false)
  else
    (m.free_loop (u32 (mem + 4294967288)) 4294967296 none pool).map
      (m.give_back (u32 (mem + 4294967288)))

/-- A call with what it returns. -/
def serve (m : Mem) (pool : Nat) : MemInput → Option (Mem × MemEvent)
  | .rt_alloc_mem size => do
    let (m, mem) ← m.rt_alloc_mem pool size.toNat
    return (m, .allocated size.toNat mem)
  | .rt_free_mem mem => do
    let (m, ok) ← m.rt_free_mem pool mem.toNat
    return (m, .freed mem.toNat ok)

end Mem

/-- The pool under any calls. A loop that does not end, or reads at `NULL`, leaves no
    memory. -/
def memory (pool : Nat) : Machine (Option Mem) MemInput MemEvent where
  step m i :=
    match m.bind (·.serve pool i) with
    | none            => (none, [])
    | some (m, event) => (some m, [event])

end Rtx
