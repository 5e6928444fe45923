-- SUMMARY: `rt_TypeDef.h` and `rt_List.c`: the kernel's control blocks and its linked lists.
import SmartAlarm.Lib.Linked

/-!
# The kernel's lists

A control block is known by its address, and the memory is one function for each
field. The ready list hangs at `os_rdy` and the delay list at `os_dly`; the tasks
that wait for a semaphore hang at the semaphore. A function that follows a null
pointer has no result, and neither has a loop that runs longer than there are
tasks.
-/

namespace Rtx

/-- A pointer to a control block. -/
inductive Ptr where
  | os_rdy
  | os_dly
  | os_idle_TCB
  /-- A block of the pool `mp_tcb`. -/
  | tcb (n : Nat)
  /-- A semaphore. -/
  | scb (n : Nat)
deriving DecidableEq, Repr

/-- `cb_type`. -/
inductive CbType where
  | TCB
  | MCB
  | SCB
  | MUCB
  | HCB
deriving DecidableEq, Repr

/-- `state`. -/
inductive TaskState where
  | INACTIVE
  | READY
  | RUNNING
  | WAIT_DLY
  | WAIT_ITV
  | WAIT_SEM
deriving DecidableEq, Repr

/-- `OS_ROBIN`. -/
structure Robin where
  task : Option Ptr
  time : Nat
  tout : Nat

/-- The memory of the kernel. -/
structure Kernel where
  cb_type : Ptr → CbType
  state : Ptr → TaskState
  prio : Ptr → Nat
  /-- Link pointer for the ready list and the lists of semaphores. -/
  p_lnk : Ptr → Option Ptr
  /-- Link pointer backwards, in the lists of semaphores only. -/
  p_rlnk : Ptr → Option Ptr
  /-- Link pointers for the delay list. -/
  p_dlnk : Ptr → Option Ptr
  p_blnk : Ptr → Option Ptr
  delta_time : Ptr → Nat
  interval_time : Ptr → Nat
  tokens : Ptr → Nat
  /-- `os_tsk`. -/
  run : Option Ptr
  new_tsk : Option Ptr
  os_time : Nat
  os_robin : Robin
  os_maxtaskrun : Nat

open Function

/-- A conversion to `U16`. -/
def u16 (n : Nat) : Nat := n % 65536

/-- A conversion to `U32`. -/
def u32 (n : Nat) : Nat := n % 4294967296

/-- A list of waiting tasks is linked backwards too. -/
def CbType.sem_mbx : CbType → Bool
  | .SCB | .MCB | .MUCB => true
  | .TCB | .HCB => false

namespace Kernel

/-- More passes than a loop over a list can take: `os_idle_TCB` and the pool. -/
def passes (k : Kernel) : Nat := k.os_maxtaskrun + 2

/-! ## Priority lists -/

/-- `rt_put_prio` -/
def rt_put_prio (k : Kernel) (p_CB p_task : Ptr) : Option Kernel := do
  let sem_mbx := (k.cb_type p_CB).sem_mbx
  let prio := k.prio p_task
  let p_CB ← Linked.walk k.p_lnk (fun p_CB2 => prio ≤ k.prio p_CB2) k.passes p_CB
  let p_CB2 := k.p_lnk p_CB
  return { k with
    p_lnk := Linked.insertAfter k.p_lnk p_CB p_task
    p_rlnk :=
      if sem_mbx then update (Linked.setAt k.p_rlnk p_CB2 (some p_task)) p_task (some p_CB)
      else update k.p_rlnk p_task none }

/-- `rt_get_first` -/
def rt_get_first (k : Kernel) (p_CB : Ptr) : Option (Ptr × Kernel) := do
  let p_first ← k.p_lnk p_CB
  let p_next := k.p_lnk p_first
  let k := { k with p_lnk := update k.p_lnk p_CB p_next }
  if (k.cb_type p_CB).sem_mbx then
    return (p_first, { k with
      p_rlnk := update (Linked.setAt k.p_rlnk p_next (some p_CB)) p_first none
      p_lnk := if p_next = none then k.p_lnk else update k.p_lnk p_first none })
  else
    return (p_first, { k with p_lnk := update k.p_lnk p_first none })

/-- `rt_put_rdy_first` -/
def rt_put_rdy_first (k : Kernel) (p_task : Ptr) : Kernel :=
  { k with
    p_lnk := Linked.insertAfter k.p_lnk .os_rdy p_task
    p_rlnk := update k.p_rlnk p_task none }

/-- `rt_get_same_rdy_prio`, with `os_tsk.run` not null. -/
def rt_get_same_rdy_prio (k : Kernel) (run : Ptr) : Option (Option Ptr × Kernel) := do
  let p_first ← k.p_lnk .os_rdy
  if k.prio p_first = k.prio run then
    return (some p_first, { k with p_lnk := update k.p_lnk .os_rdy (k.p_lnk p_first) })
  else return (none, k)

/-! ## The delay list -/

/-- The label `last` of `rt_put_dly`. -/
def put_last (k : Kernel) (p_task : Ptr) (idelay : Nat) (p : Ptr) (delta : Nat) : Kernel :=
  { k with
    p_dlnk := update (update k.p_dlnk p_task none) p (some p_task)
    p_blnk := update k.p_blnk p_task (some p)
    delta_time := update (update k.delta_time p (u16 (idelay - delta))) p_task 0 }

/-- The end of `rt_put_dly`, with the right place found. -/
def put_here (k : Kernel) (p_task : Ptr) (idelay : Nat) (p : Ptr) (delta : Nat) : Kernel :=
  { k with
    p_dlnk := Linked.insertAfter k.p_dlnk p p_task
    p_blnk := Linked.setAt (update k.p_blnk p_task (some p)) (k.p_dlnk p) (some p_task)
    delta_time :=
      update (update k.delta_time p_task (u16 (delta - idelay))) p
        (u16 (k.delta_time p + 65536 - u16 (delta - idelay))) }

/-- `while (delta < idelay)` in `rt_put_dly`, for `n` passes at most. -/
def put_dly_loop (k : Kernel) (p_task : Ptr) (idelay : Nat) : Nat → Ptr → Nat → Option Kernel
  | 0, _, _ => none
  | n + 1, p, delta =>
    if delta < idelay then
      match k.p_dlnk p with
      | none   => some (k.put_last p_task idelay p delta)
      | some q => k.put_dly_loop p_task idelay n q (u32 (delta + k.delta_time q))
    else some (k.put_here p_task idelay p delta)

/-- `rt_put_dly` -/
def rt_put_dly (k : Kernel) (p_task : Ptr) (delay : Nat) : Option Kernel :=
  match k.p_dlnk .os_dly with
  | none   => some (k.put_last p_task delay .os_dly 0)
  | some _ => k.put_dly_loop p_task delay k.passes .os_dly (k.delta_time .os_dly)

/-- The first part of the loop body of `rt_dec_dly`: the task leaves the list of its
    semaphore, if it is in one. -/
def leave_wait_list (k : Kernel) (p_rdy : Ptr) : Kernel :=
  match k.p_rlnk p_rdy with
  | none   => k
  | some q =>
    { k with
      p_lnk := update (Linked.removeAfter k.p_lnk q p_rdy) p_rdy none
      p_rlnk := update (Linked.setAt k.p_rlnk (k.p_lnk p_rdy) (some q)) p_rdy none }

/-- The rest of the loop body: the task leaves the delay list. -/
def leave_dly (k : Kernel) (p_rdy : Ptr) : Kernel :=
  let k := { k with delta_time := update k.delta_time .os_dly (k.delta_time p_rdy) }
  let k :=
    if k.state p_rdy = .WAIT_ITV then
      { k with
        delta_time := update k.delta_time p_rdy (u16 (k.interval_time p_rdy + u16 k.os_time)) }
    else k
  { k with
    state := update k.state p_rdy .READY
    p_dlnk := update (Linked.removeAfter k.p_dlnk .os_dly p_rdy) p_rdy none
    p_blnk := update (Linked.setAt k.p_blnk (k.p_dlnk p_rdy) (some .os_dly)) p_rdy none }

/-- `while ((os_dly.delta_time == 0U) && (os_dly.p_dlnk != NULL))` in `rt_dec_dly`, for
    at most `n` passes. -/
def dec_dly_loop : Nat → Kernel → Option Kernel
  | 0, _     => none
  | n + 1, k =>
    if k.delta_time .os_dly = 0 then
      match k.p_dlnk .os_dly with
      | none       => some k
      | some p_rdy => do
        let k ← (k.leave_wait_list p_rdy).rt_put_prio .os_rdy p_rdy
        dec_dly_loop n (k.leave_dly p_rdy)
    else some k

/-- `rt_dec_dly` -/
def rt_dec_dly (k : Kernel) : Option Kernel :=
  match k.p_dlnk .os_dly with
  | none   => some k
  | some _ =>
    let k := { k with
      delta_time := update k.delta_time .os_dly (u16 (k.delta_time .os_dly + 65535)) }
    dec_dly_loop k.passes k

/-- `rt_rmv_dly` -/
def rt_rmv_dly (k : Kernel) (p_task : Ptr) : Kernel :=
  match k.p_blnk p_task with
  | none     => k
  | some p_b =>
    { k with
      delta_time := update k.delta_time p_b
        (if k.p_dlnk p_task = none then 0 else u16 (k.delta_time p_b + k.delta_time p_task))
      p_dlnk := update (Linked.removeAfter k.p_dlnk p_b p_task) p_task none
      p_blnk := update (Linked.setAt k.p_blnk (k.p_dlnk p_task) (some p_b)) p_task none }

end Kernel

end Rtx
