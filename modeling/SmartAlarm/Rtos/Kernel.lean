-- SUMMARY: `rt_Task.c`, `rt_Robin.c`, `rt_System.c`, `rt_Time.c`, `rt_Semaphore.c` and `rt_CMSIS.c`: the calls of the kernel and its tick.
import SmartAlarm.Lib.Machine
import SmartAlarm.Rtos.List

/-!
# The kernel

A call of the kernel runs to its end. It chooses the task to go on with in
`os_tsk.new_tsk`, and the handler that leaves the call switches to it. The user
timers are left out of the tick: there are none.
-/

namespace Rtx

open Function

namespace Kernel

/-! ## `rt_Task.c` -/

/-- `rt_switch_req` -/
def rt_switch_req (k : Kernel) (p_new : Ptr) : Kernel :=
  { k with new_tsk := some p_new, state := update k.state p_new .RUNNING }

/-- `rt_dispatch` -/
def rt_dispatch (k : Kernel) (next_TCB : Option Ptr) : Option Kernel :=
  match next_TCB with
  | none => do
    let (next_TCB, k) ← k.rt_get_first .os_rdy
    return k.rt_switch_req next_TCB
  | some next_TCB => do
    let run ← k.run
    if k.prio run < k.prio next_TCB then
      let k := k.rt_put_rdy_first run
      let k := { k with state := update k.state run .READY }
      return k.rt_switch_req next_TCB
    else
      let k := { k with state := update k.state next_TCB .READY }
      k.rt_put_prio .os_rdy next_TCB

/-- `rt_block` -/
def rt_block (k : Kernel) (timeout : Nat) (block_state : TaskState) : Option Kernel :=
  if timeout ≠ 0 then do
    let run ← k.run
    let k ← (if timeout < 65535 then k.rt_put_dly run timeout else some k)
    let k := { k with state := update k.state run block_state }
    let (next_TCB, k) ← k.rt_get_first .os_rdy
    return k.rt_switch_req next_TCB
  else some k

/-- `rt_tsk_pass` -/
def rt_tsk_pass (k : Kernel) : Option Kernel := do
  let run ← k.run
  let (p_new, k) ← k.rt_get_same_rdy_prio run
  match p_new with
  | none => return k
  | some p_new =>
    let k ← k.rt_put_prio .os_rdy run
    let k := { k with state := update k.state run .READY }
    return k.rt_switch_req p_new

/-- `rt_init_context` -/
def rt_init_context (k : Kernel) (p_TCB : Ptr) (priority : Nat) : Kernel :=
  { k with
    cb_type := update k.cb_type p_TCB .TCB
    state := update k.state p_TCB .READY
    prio := update k.prio p_TCB priority
    p_lnk := update k.p_lnk p_TCB none
    p_rlnk := update k.p_rlnk p_TCB none
    p_dlnk := update k.p_dlnk p_TCB none
    p_blnk := update k.p_blnk p_TCB none
    delta_time := update k.delta_time p_TCB 0
    interval_time := update k.interval_time p_TCB 0 }

/-- `rt_tsk_create`, on the block `task_context` that the pool gives. Priority 0 is
    reserved for the idle task. -/
def rt_tsk_create (k : Kernel) (task_context : Ptr) (prio_stksz : Nat) : Option Kernel :=
  let prio_stksz := if prio_stksz % 256 = 0 then prio_stksz + 1 else prio_stksz
  (k.rt_init_context task_context (prio_stksz % 256)).rt_dispatch (some task_context)

/-- `rt_tsk_delete`, of the running task itself: the branch for another task is left
    out. While its block is free it stays `INACTIVE`: the link that the pool writes over
    it is left out, too. -/
def rt_tsk_delete (k : Kernel) : Option Kernel := do
  let run ← k.run
  let k := { k with state := update k.state run .INACTIVE, run := none }
  k.rt_dispatch none

/-- `rt_sys_init`, from memory in which all is 0. -/
def rt_sys_init (os_maxtaskrun os_rrobin : Nat) : Kernel :=
  { cb_type := update (update (fun _ => .TCB) .os_rdy .HCB) .os_dly .HCB
    state := update (fun _ => .INACTIVE) .os_idle_TCB .RUNNING
    prio := fun _ => 0
    p_lnk := fun _ => none
    p_rlnk := fun _ => none
    p_dlnk := fun _ => none
    p_blnk := fun _ => none
    delta_time := fun _ => 0
    interval_time := fun _ => 0
    tokens := fun _ => 0
    run := some .os_idle_TCB
    new_tsk := some .os_idle_TCB
    os_time := 0
    os_robin := ⟨none, 0, u16 os_rrobin⟩
    os_maxtaskrun := os_maxtaskrun }

/-! ## `rt_Robin.c`, `rt_System.c` and `rt_Time.c` -/

/-- `rt_chk_robin` -/
def rt_chk_robin (k : Kernel) : Option Kernel :=
  let k :=
    if k.os_robin.task ≠ k.p_lnk .os_rdy then
      { k with os_robin :=
        { k.os_robin with
          task := k.p_lnk .os_rdy
          time := u16 (u16 k.os_time + k.os_robin.tout + 4294967295) } }
    else k
  if k.os_robin.time = u16 k.os_time then do
    let k := { k with os_robin := { k.os_robin with task := none } }
    let (p_new, k) ← k.rt_get_first .os_rdy
    k.rt_put_prio .os_rdy p_new
  else some k

/-- `rt_systick` -/
def rt_systick (k : Kernel) : Option Kernel := do
  let run ← k.run
  let k := { k with state := update k.state run .READY }
  let k ← (k.rt_put_rdy_first run).rt_chk_robin
  let k := { k with os_time := u32 (k.os_time + 1) }
  let k ← k.rt_dec_dly
  let (next, k) ← k.rt_get_first .os_rdy
  return k.rt_switch_req next

/-- `rt_dly_wait` -/
def rt_dly_wait (k : Kernel) (delay_time : Nat) : Option Kernel := k.rt_block delay_time .WAIT_DLY

/-! ## `rt_Semaphore.c` -/

/-- What `rt_sem_wait` returns. -/
inductive Result where
  | OS_R_OK
  | OS_R_TMO
deriving DecidableEq, Repr

/-- `rt_sem_wait` -/
def rt_sem_wait (k : Kernel) (semaphore : Nat) (timeout : Nat) : Option (Result × Kernel) :=
  let p_SCB : Ptr := .scb semaphore
  if k.tokens p_SCB ≠ 0 then
    some (.OS_R_OK, { k with tokens := update k.tokens p_SCB (k.tokens p_SCB - 1) })
  else if timeout = 0 then some (.OS_R_TMO, k)
  else do
    let run ← k.run
    let k ← (
      if k.p_lnk p_SCB ≠ none then k.rt_put_prio p_SCB run
      else some { k with
        p_lnk := update (update k.p_lnk p_SCB (some run)) run none
        p_rlnk := update k.p_rlnk run (some p_SCB) })
    let k ← k.rt_block timeout .WAIT_SEM
    return (.OS_R_TMO, k)

/-- `rt_sem_send`, with the task that it gives the token to. -/
def rt_sem_send (k : Kernel) (semaphore : Nat) : Option (Option Ptr × Kernel) :=
  let p_SCB : Ptr := .scb semaphore
  if k.p_lnk p_SCB ≠ none then do
    let (p_TCB, k) ← k.rt_get_first p_SCB
    let k ← (k.rt_rmv_dly p_TCB).rt_dispatch (some p_TCB)
    return (some p_TCB, k)
  else some (none, { k with tokens := update k.tokens p_SCB (u16 (k.tokens p_SCB + 1)) })

/-- The end of a call: `os_tsk.run = os_tsk.new_tsk`. -/
def sys_switch (k : Kernel) : Kernel := { k with run := k.new_tsk }

end Kernel

/-! ## `rt_CMSIS.c` -/

/-- `rt_ms2tick`, with `os_clockrate` at 1000. -/
def rt_ms2tick (millisec : Nat) : Nat :=
  if millisec = 0 then 0
  else if millisec = 4294967295 then 65535
  else if 4000000 < millisec then 65534
  else
    let tick := u32 (u32 (1000 * millisec) + 1000 + 4294967295) / 1000
    if 65534 < tick then 65534 else u16 tick

/-- What comes to the kernel: the tick and calls of the running task. There are no
    others: no change of a priority, no termination of another task, no deletion of a
    semaphore, no mutex, no signal, and no call from an interrupt. -/
inductive SysCall where
  /-- The system timer. -/
  | systick
  /-- `svcThreadCreate`, with the number of the block that the pool gives. -/
  | svcThreadCreate (n : Nat) (prio_stksz : Nat)
  /-- `svcThreadTerminate`, which a thread that returns calls on itself. -/
  | svcThreadTerminate
  | svcDelay (millisec : Nat)
  | svcThreadYield
  | svcSemaphoreWait (semaphore : Nat) (millisec : Nat)
  | svcSemaphoreRelease (semaphore : Nat)
deriving DecidableEq, Repr

inductive SysEvent where
  /-- A task has got a token. -/
  | acquired (semaphore : Nat) (task : Ptr)
  /-- A token was given back. -/
  | released (semaphore : Nat)
deriving DecidableEq, Repr

/-- The function behind a call, up to the switch. -/
def Kernel.serve (k : Kernel) : SysCall → Option (Kernel × List SysEvent)
  | .systick => do return (← k.rt_systick, [])
  | .svcThreadCreate n prio_stksz => do return (← k.rt_tsk_create (.tcb n) prio_stksz, [])
  | .svcThreadTerminate => do return (← k.rt_tsk_delete, [])
  | .svcDelay millisec =>
    if millisec = 0 then some (k, []) else do return (← k.rt_dly_wait (rt_ms2tick millisec), [])
  | .svcThreadYield => do return (← k.rt_tsk_pass, [])
  | .svcSemaphoreWait semaphore millisec => do
    let run ← k.run
    let (result, k) ← k.rt_sem_wait semaphore (rt_ms2tick millisec)
    return (k, if result = .OS_R_OK then [.acquired semaphore run] else [])
  | .svcSemaphoreRelease semaphore =>
    if k.tokens (.scb semaphore) = 65535 then some (k, [])
    else do
      let (task, k) ← k.rt_sem_send semaphore
      return (k, .released semaphore :: (task.map (.acquired semaphore)).toList)

/-- The kernel under calls and ticks in any order. A call that follows a null pointer
    or does not end leaves no kernel. -/
def kernel : Machine (Option Kernel) SysCall SysEvent where
  step k call :=
    match k with
    | none   => (none, [])
    | some k =>
      match k.serve call with
      | none             => (none, [])
      | some (k, events) => (some k.sys_switch, events)

/-- What can happen: a new task gets a block that is free, and the idle task makes no
    call that it would have to wait in, and does not return. -/
def SysEnabled (k : Option Kernel) (call : SysCall) : Prop :=
  match k with
  | none   => True
  | some k =>
    match call with
    | .systick | .svcSemaphoreRelease _ => True
    | .svcThreadCreate n _ => n < k.os_maxtaskrun ∧ k.state (.tcb n) = .INACTIVE
    | .svcThreadTerminate | .svcDelay _ | .svcThreadYield | .svcSemaphoreWait _ _ =>
      k.run ≠ some .os_idle_TCB

instance decidableSysEnabled : ∀ (k : Option Kernel) (call : SysCall), Decidable (SysEnabled k call)
  | none, _ => inferInstanceAs (Decidable True)
  | some _, .systick => inferInstanceAs (Decidable True)
  | some _, .svcSemaphoreRelease _ => inferInstanceAs (Decidable True)
  | some _, .svcThreadCreate _ _ => inferInstanceAs (Decidable (_ ∧ _))
  | some k, .svcThreadTerminate => inferInstanceAs (Decidable (k.run ≠ some .os_idle_TCB))
  | some k, .svcDelay _ => inferInstanceAs (Decidable (k.run ≠ some .os_idle_TCB))
  | some k, .svcThreadYield => inferInstanceAs (Decidable (k.run ≠ some .os_idle_TCB))
  | some k, .svcSemaphoreWait _ _ => inferInstanceAs (Decidable (k.run ≠ some .os_idle_TCB))

/-- The kernel after `rt_sys_init`, and after `rt_sem_init` has made every semaphore
    with its count. -/
def Kernel.boot (os_maxtaskrun : Nat) (count : Nat → Nat) : Kernel :=
  let k := rt_sys_init os_maxtaskrun (65536 + 5)
  { k with
    cb_type := fun p => match p with
      | .scb _ => .SCB
      | p      => k.cb_type p
    tokens := fun p => match p with
      | .scb n => count n
      | p      => k.tokens p }

end Rtx
