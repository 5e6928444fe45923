-- SUMMARY: `rt_CMSIS.c`: the user timers of the kernel, on their list of differences.
import SmartAlarm.Lib.Linked
import SmartAlarm.Lib.Machine
import SmartAlarm.Rtos.List
import Mathlib.Logic.Function.Basic

/-!
# The user timers

The control blocks of a program's timers are a fixed number of records. The timers
that run are linked from `os_timer_head` in the order they are due in, and each
stores how many ticks later than the one before it is due. A due timer is put
into the queue of the timer thread, which is taken to have room for it: what
happens if that queue is full is left out, and so are the callback and its argument.
-/

namespace Rtx

open Function

/-- `state` of a timer. -/
inductive TimerState where
  | osTimerInvalid
  | osTimerStopped
  | osTimerRunning
deriving DecidableEq, Repr

/-- `os_timer_type`. -/
inductive TimerType where
  | osTimerOnce
  | osTimerPeriodic
deriving DecidableEq, Repr

inductive Status where
  | osOK
  | osErrorValue
  | osErrorResource
deriving DecidableEq, Repr

/-- The records `os_timer_cb` of `n` timers, field by field. -/
structure Timers (n : Nat) where
  next : Fin n → Option (Fin n)
  state : Fin n → TimerState
  type : Fin n → TimerType
  tcnt : Fin n → Nat
  icnt : Fin n → Nat
  os_timer_head : Option (Fin n)

inductive TimerEvent where
  /-- `isrMessagePut(osMessageQId_osTimerMessageQ, pt, 0)` -/
  | put
  /-- `svcTimerCreate` returns the timer, or `NULL`. -/
  | created (ok : Bool)
  /-- What the other calls return. -/
  | returned (status : Status)
deriving DecidableEq, Repr

namespace Timers

variable {n : Nat}

/-! ## The list -/

/-- The loop of `rt_timer_insert`, for `m` passes at most, with what it leaves in `prev`, `p`
    and `tcnt`. -/
def insert_loop (k : Timers n) :
    Nat → Option (Fin n) → Option (Fin n) → Nat → Option (Option (Fin n) × Option (Fin n) × Nat)
  | 0, _, _, _ => none
  | _ + 1, prev, none, tcnt => some (prev, none, tcnt)
  | m + 1, prev, some p, tcnt =>
    if tcnt < k.tcnt p then some (prev, some p, tcnt)
    else k.insert_loop m (some p) (k.next p) (tcnt - k.tcnt p)

/-- The rest of `rt_timer_insert`. -/
def insert_between (k : Timers n) (pt : Fin n) (prev p : Option (Fin n)) (tcnt : Nat) : Timers n :=
  { k with
    next := Linked.setAt (update k.next pt p) prev (some pt)
    tcnt :=
      match p with
      | none   => update k.tcnt pt tcnt
      | some p => update (update k.tcnt pt tcnt) p (k.tcnt p - tcnt)
    os_timer_head := if prev = none then some pt else k.os_timer_head }

/-- `rt_timer_insert` -/
def rt_timer_insert (k : Timers n) (pt : Fin n) (tcnt : Nat) : Option (Timers n) := do
  let (prev, p, tcnt) ← k.insert_loop (n + 1) none k.os_timer_head tcnt
  return k.insert_between pt prev p tcnt

/-- The loop of `rt_timer_remove`, for `m` passes at most, with what it leaves in `prev` and
    `p`. -/
def remove_loop (k : Timers n) (pt : Fin n) :
    Nat → Option (Fin n) → Option (Fin n) → Option (Option (Fin n) × Option (Fin n))
  | 0, _, _ => none
  | _ + 1, prev, none => some (prev, none)
  | m + 1, prev, some p =>
    if p = pt then some (prev, some p) else k.remove_loop pt m (some p) (k.next p)

/-- `rt_timer_remove`, and whether it found the timer. -/
def rt_timer_remove (k : Timers n) (pt : Fin n) : Option (Bool × Timers n) := do
  let (prev, p) ← k.remove_loop pt (n + 1) none k.os_timer_head
  match p with
  | none   => return (false, k)
  | some _ => return (true, { k with
      next := Linked.setAt k.next prev (k.next pt)
      tcnt :=
        match k.next pt with
        | none   => k.tcnt
        | some q => update k.tcnt q (u32 (k.tcnt q + k.tcnt pt))
      os_timer_head := if prev = none then k.next pt else k.os_timer_head })

/-! ## The calls -/

/-- `svcTimerCreate`, with a definition, a type and a timer thread as it wants them. -/
def svcTimerCreate (k : Timers n) (pt : Fin n) (type : TimerType) : Timers n × Bool :=
  if k.state pt ≠ .osTimerInvalid then (k, false)
  else
    ({ k with
        next := update k.next pt none
        state := update k.state pt .osTimerStopped
        type := update k.type pt type }, true)

/-- The `tcnt` of `svcTimerStart`, with `os_clockrate` at 1000. -/
def ticks (millisec : UInt32) : Nat := u32 ((1000 * millisec.toNat + 1000 - 1) / 1000)

/-- `svcTimerStart` -/
def svcTimerStart (k : Timers n) (pt : Fin n) (millisec : UInt32) : Option (Timers n × Status) :=
  if millisec = 0 then some (k, .osErrorValue)
  else
    let tcnt := ticks millisec
    match k.state pt with
    | .osTimerRunning => do
      let (found, k) ← k.rt_timer_remove pt
      if found then return (← k.rt_timer_insert pt tcnt, .osOK) else return (k, .osErrorResource)
    | .osTimerStopped => do
      let k := { k with
        state := update k.state pt .osTimerRunning
        icnt := update k.icnt pt tcnt }
      return (← k.rt_timer_insert pt tcnt, .osOK)
    | .osTimerInvalid => some (k, .osErrorResource)

/-- `svcTimerStop` -/
def svcTimerStop (k : Timers n) (pt : Fin n) : Option (Timers n × Status) :=
  if k.state pt ≠ .osTimerRunning then some (k, .osErrorResource)
  else do
    let (found, k) ← { k with state := update k.state pt .osTimerStopped }.rt_timer_remove pt
    return (k, if found then .osOK else .osErrorResource)

/-- `svcTimerDelete` -/
def svcTimerDelete (k : Timers n) (pt : Fin n) : Option (Timers n × Status) :=
  match k.state pt with
  | .osTimerRunning => do
    let (_, k) ← k.rt_timer_remove pt
    return ({ k with state := update k.state pt .osTimerInvalid }, .osOK)
  | .osTimerStopped => some ({ k with state := update k.state pt .osTimerInvalid }, .osOK)
  | .osTimerInvalid => some (k, .osErrorResource)

/-! ## The tick -/

/-- The loop of `sysTimerTick`, for `m` passes at most, with the timers that are due. The
    queue takes every one of them: the way to `os_error` is left out. -/
def tick_loop : Nat → Timers n → Option (Fin n) → Option (Timers n × List (Fin n))
  | 0, _, _ => none
  | _ + 1, k, none => some (k, [])
  | m + 1, k, some pt =>
    if k.tcnt pt = 0 then do
      let p := k.next pt
      let k := { k with os_timer_head := p }
      let k ← (
        if k.type pt = .osTimerPeriodic then k.rt_timer_insert pt (k.icnt pt)
        else some { k with state := update k.state pt .osTimerStopped })
      let (k, due) ← tick_loop m k p
      return (k, pt :: due)
    else some (k, [])

/-- `sysTimerTick` -/
def sysTimerTick (k : Timers n) : Option (Timers n × List (Fin n)) :=
  match k.os_timer_head with
  | none   => some (k, [])
  | some p => tick_loop (n + 1) { k with tcnt := update k.tcnt p (u32 (k.tcnt p + 4294967295)) } (some p)

/-- The loop of `sysUserTimerUpdate`, for `m` passes at most. -/
def update_loop : Nat → Timers n → Nat → Option (Timers n × List (Fin n))
  | 0, _, _ => none
  | m + 1, k, sleep_time =>
    match k.os_timer_head with
    | none   => some (k, [])
    | some p =>
      if sleep_time = 0 then some (k, [])
      else if k.tcnt p ≤ sleep_time then do
        let left := sleep_time - k.tcnt p
        let (k, due) ← { k with tcnt := update k.tcnt p 1 }.sysTimerTick
        let (k, due') ← update_loop m k left
        return (k, due ++ due')
      else some ({ k with tcnt := update k.tcnt p (k.tcnt p - sleep_time) }, [])

/-- `sysUserTimerUpdate` -/
def sysUserTimerUpdate (k : Timers n) (sleep_time : UInt32) : Option (Timers n × List (Fin n)) :=
  update_loop (sleep_time.toNat + 1) k sleep_time.toNat

end Timers

inductive TimerCall where
  | svcTimerCreate (type : TimerType)
  | svcTimerStart (millisec : UInt32)
  | svcTimerStop
  | svcTimerDelete
deriving DecidableEq, Repr

/-- A call on a timer, a tick of the system timer, or the end of a sleep without ticks. -/
inductive TimerInput (n : Nat) where
  | call (timer : Fin n) (c : TimerCall)
  | sysTimerTick
  | sysUserTimerUpdate (sleep_time : UInt32)
deriving DecidableEq, Repr

/-- The function behind a call. -/
def Timers.serve {n : Nat} (k : Timers n) (pt : Fin n) : TimerCall → Option (Timers n × TimerEvent)
  | .svcTimerCreate type =>
    let (k, ok) := k.svcTimerCreate pt type
    some (k, .created ok)
  | .svcTimerStart millisec => do
    let (k, status) ← k.svcTimerStart pt millisec
    return (k, .returned status)
  | .svcTimerStop => do
    let (k, status) ← k.svcTimerStop pt
    return (k, .returned status)
  | .svcTimerDelete => do
    let (k, status) ← k.svcTimerDelete pt
    return (k, .returned status)

/-- An input with the events of every timer. -/
def Timers.accept {n : Nat} (k : Timers n) : TimerInput n → Option (Timers n × List (Fin n × TimerEvent))
  | .call pt c => do
    let (k, event) ← k.serve pt c
    return (k, [(pt, event)])
  | .sysTimerTick => do
    let (k, due) ← k.sysTimerTick
    return (k, due.map (·, .put))
  | .sysUserTimerUpdate sleep_time => do
    let (k, due) ← k.sysUserTimerUpdate sleep_time
    return (k, due.map (·, .put))

/-- The timers under calls and ticks in any order. A loop that does not end leaves no
    timers. -/
def timers (n : Nat) : Machine (Option (Timers n)) (TimerInput n) (Fin n × TimerEvent) where
  step k i :=
    match k.bind (·.accept i) with
    | none             => (none, [])
    | some (k, events) => (some k, events)

/-- Memory in which all is 0. -/
def Timers.zeroed (n : Nat) : Timers n where
  next := fun _ => none
  state := fun _ => .osTimerInvalid
  type := fun _ => .osTimerOnce
  tcnt := fun _ => 0
  icnt := fun _ => 0
  os_timer_head := none

end Rtx
