-- SUMMARY: What the kernel is for: tasks that run by priority and in turn, sleep for a time, and wait for tokens.
import SmartAlarm.Lib.DeltaList
import SmartAlarm.Lib.PriorityQueue
import SmartAlarm.Rtos.Kernel

/-!
# The scheduler

The kernel without its pointers. Queues are lists, a sleeping task is kept with
the ticks that it still sleeps, and of the round robin there is only how many
ticks the running task has left before it must let the next one run.
-/

namespace Rtx

open Function PriorityQueue

structure Scheduler (α : Type*) where
  prio : α → Nat
  run : α
  ready : List α
  asleep : List (α × Nat)
  waiting : Nat → List α
  tokens : Nat → Nat
  /-- How many ticks a task may run before the next of its priority. -/
  tout : Nat
  /-- The task that ran at the last tick, and how many ticks more it may. -/
  slice : Option (α × Nat)

namespace Scheduler

variable {α : Type*}

/-- The first task that is ready runs. -/
def resume (s : Scheduler α) : Scheduler α :=
  match s.ready with
  | []         => s
  | x :: ready => { s with run := x, ready := ready }

/-- A task becomes ready, and runs at once if it is above the one that does. -/
def dispatch (s : Scheduler α) (x : α) : Scheduler α :=
  if s.prio s.run < s.prio x then { s with run := x, ready := s.run :: s.ready }
  else { s with ready := enqueue s.prio x s.ready }

def create [DecidableEq α] (s : Scheduler α) (x : α) (p : Nat) : Scheduler α :=
  { s with prio := update s.prio x p }.dispatch x

/-- The running task sleeps for `d` ticks, or for ever. -/
def sleep (s : Scheduler α) (d : Nat) : Scheduler α :=
  if d < 65535 then { s with asleep := DeltaList.insert (s.run, d) s.asleep } else s

theorem ready_sleep (s : Scheduler α) (d : Nat) : (s.sleep d).ready = s.ready := by
  rw [sleep]
  split <;> rfl

def delay (s : Scheduler α) (d : Nat) : Scheduler α :=
  if d = 0 then s else (s.sleep d).resume

/-- The running task lets the next of its priority run. -/
def pass (s : Scheduler α) : Scheduler α :=
  match s.ready with
  | []         => s
  | x :: ready =>
    if s.prio x = s.prio s.run then { s with run := x, ready := enqueue s.prio s.run ready } else s

/-- The running task takes a token or waits for one, for `d` ticks at most. -/
def wait (s : Scheduler α) (n d : Nat) : Scheduler α × Bool :=
  if s.tokens n ≠ 0 then ({ s with tokens := update s.tokens n (s.tokens n - 1) }, true)
  else if d = 0 then (s, false)
  else
    (({ s with waiting := update s.waiting n (enqueue s.prio s.run (s.waiting n)) }.sleep d).resume,
      false)

theorem mem_waiting_put {s : Scheduler α} {n m : Nat} {y : α} :
    y ∈ update s.waiting n (enqueue s.prio s.run (s.waiting n)) m ↔
      m = n ∧ y = s.run ∨ y ∈ s.waiting m := by
  by_cases hm : m = n
  · subst hm
    simp
  · simp [hm]

variable [DecidableEq α]

/-- A token is given to the first task that waits for it, or is kept. -/
def signal (s : Scheduler α) (n : Nat) : Scheduler α × Option α :=
  match s.waiting n with
  | []           => ({ s with tokens := update s.tokens n (s.tokens n + 1) }, none)
  | x :: waiting =>
    ({ s with
        waiting := update s.waiting n waiting
        asleep := s.asleep.filter fun y => y.1 ≠ x }.dispatch x, some x)

/-- How many ticks more the running task may run. -/
def left (s : Scheduler α) : Nat :=
  match s.slice with
  | none        => s.tout - 1
  | some (x, n) => if x = s.run then n else s.tout - 1

/-- The running task goes back to the queue, in front or, after its last tick, behind
    the others of its priority. -/
def rotate (s : Scheduler α) : List α × Option (α × Nat) :=
  if s.left = 0 then (enqueue s.prio s.run s.ready, none)
  else (s.run :: s.ready, some (s.run, s.left - 1))

theorem mem_rotate {s : Scheduler α} {x : α} : x ∈ s.rotate.1 ↔ x = s.run ∨ x ∈ s.ready := by
  rw [rotate]
  split
  · exact mem_enqueue
  · exact List.mem_cons

/-- The tasks whose time has come with the next tick. -/
def due (s : Scheduler α) : List α :=
  ((DeltaList.tick s.asleep).takeWhile fun x => x.2 = 0).map Prod.fst

/-- A task that has slept enough becomes ready, wherever it waited. -/
def wake (s : Scheduler α) (x : α) : Scheduler α :=
  { s with
    ready := enqueue s.prio x s.ready
    waiting := fun n => (s.waiting n).filter fun y => y ≠ x }

theorem mem_ready_wake {s : Scheduler α} {x : α} (h : x ∈ s.ready) (l : List α) : x ∈ (l.foldl wake s).ready := by
  induction l generalizing s with
  | nil => exact h
  | cons y l ih => exact ih (mem_enqueue.mpr (.inr h))

def tick (s : Scheduler α) : Scheduler α :=
  let s' := { s with
    ready := s.rotate.1
    slice := s.rotate.2
    asleep := (DeltaList.tick s.asleep).dropWhile fun x => x.2 = 0 }
  (s.due.foldl wake s').resume

end Scheduler

/-- A call of the kernel, as the scheduler sees it. -/
def Scheduler.serve (s : Scheduler Ptr) : SysCall → Scheduler Ptr × List SysEvent
  | .systick => (s.tick, [])
  | .svcThreadCreate n prio_stksz => (s.create (.tcb n) (max 1 (prio_stksz % 256)), [])
  | .svcThreadTerminate => (s.resume, [])
  | .svcDelay millisec => (s.delay (rt_ms2tick millisec), [])
  | .svcThreadYield => (s.pass, [])
  | .svcSemaphoreWait n millisec =>
    let waited := s.wait n (rt_ms2tick millisec)
    (waited.1, if waited.2 then [.acquired n s.run] else [])
  | .svcSemaphoreRelease n =>
    if s.tokens n = 65535 then (s, [])
    else
      let given := s.signal n
      (given.1, .released n :: (given.2.map (.acquired n)).toList)

def scheduler : Machine (Scheduler Ptr) SysCall SysEvent where
  step := Scheduler.serve

/-- Only the idle task, and the semaphores with their counts. -/
def Scheduler.init (count : Nat → Nat) : Scheduler Ptr where
  prio := fun _ => 0
  run := .os_idle_TCB
  ready := []
  asleep := []
  waiting := fun _ => []
  tokens := count
  tout := 5
  slice := none

end Rtx
