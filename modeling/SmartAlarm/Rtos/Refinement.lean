-- SUMMARY: The kernel refines the scheduler: what its memory holds after each call is what the scheduler does.
import SmartAlarm.Rtos.Delays
import SmartAlarm.Rtos.Scheduler

/-!
# Refinement

The lists in memory are the queues of a scheduler, and the state of every task is
that of the queue it is in. From this a task that runs is in no queue, which is
what makes it safe to link it into one.
-/

namespace Rtx

open Function Linked PriorityQueue

/-- A step that succeeds, in front of the rest. -/
theorem bind_of_eq_some {α β : Type} {o : Option α} {a : α} (h : o = some a) (f : α → Option β) :
    (o >>= f) = f a := by
  rw [h]
  rfl

namespace Scheduler

variable {α : Type*} {s : Scheduler α} {x : α}

/-- The queues, by the headers that they hang at. -/
def queues (s : Scheduler α) : Option Nat → List α
  | none   => s.ready
  | some n => s.waiting n

theorem queues_ready (s : Scheduler α) (l : List α) :
    { s with ready := l }.queues = update s.queues none l := by
  funext i
  cases i <;> rfl

theorem queues_waiting (s : Scheduler α) (n : Nat) (l : List α) :
    { s with waiting := update s.waiting n l }.queues = update s.queues (some n) l := by
  funext i
  cases i with
  | none => rfl
  | some m =>
    by_cases hm : m = n
    · subst hm
      simp [queues]
    · simp [queues, hm]

/-- In no queue, and not asleep. -/
def Out (s : Scheduler α) (x : α) : Prop := (∀ i, x ∉ s.queues i) ∧ x ∉ s.asleep.map Prod.fst

end Scheduler

/-! ## What the memory holds -/

/-- What `os_robin` stores of the round robin at the time `now`. -/
def Robin.Keeps (r : Robin) (now : Nat) : Option (Ptr × Nat) → Prop
  | none        => r.task = none
  | some (x, n) => r.task = some x ∧ n < 65536 ∧ r.time = u16 (now + n)

/-- The memory holds the scheduler `s`, whatever the states of the tasks. -/
structure Holds (k : Kernel) (s : Scheduler Ptr) : Prop where
  queues : HoldsQueues k s.queues
  delays : HoldsDelays k s.asleep
  prio : k.prio = s.prio
  tokens : ∀ n, k.tokens (.scb n) = s.tokens n
  tout : k.os_robin.tout = s.tout
  slice : k.os_robin.Keeps k.os_time s.slice
  run : k.run = some s.run
  run_task : s.run ∈ pool k.os_maxtaskrun

/-- The state of every task is that of its queue. -/
structure Tracks (state : Ptr → TaskState) (s : Scheduler Ptr) : Prop where
  ready : ∀ x ∈ s.ready, state x = .READY
  waiting : ∀ n, ∀ x ∈ s.waiting n, state x = .WAIT_SEM
  asleep : ∀ x ∈ s.asleep.map Prod.fst, state x = .WAIT_DLY ∨ ∃ n, x ∈ s.waiting n

/-- Between two calls. -/
structure Refines (k : Kernel) (s : Scheduler Ptr) : Prop extends Holds k s where
  tracks : Tracks k.state s
  new_tsk : k.new_tsk = some s.run
  running : k.state s.run = .RUNNING

section

variable {k : Kernel} {state : Ptr → TaskState} {s : Scheduler Ptr} {x : Ptr} {l : List Ptr} {d n : Nat}

theorem Tracks.asleep_state (h : Tracks state s) (hx : x ∈ s.asleep.map Prod.fst) :
    state x = .WAIT_DLY ∨ state x = .WAIT_SEM :=
  (h.asleep x hx).imp_right fun ⟨n, hn⟩ => h.waiting n x hn

theorem Tracks.out (h : Tracks state s) (hx : state x = .RUNNING ∨ state x = .INACTIVE) :
    s.Out x := by
  refine ⟨fun i hmem => ?_, fun hmem => ?_⟩
  · cases i with
    | none =>
      have hready := h.ready x hmem
      rcases hx with hx | hx <;> cases hx.symm.trans hready
    | some n =>
      have hwaiting := h.waiting n x hmem
      rcases hx with hx | hx <;> cases hx.symm.trans hwaiting
  · rcases h.asleep_state hmem with hasleep | hasleep <;>
      rcases hx with hx | hx <;> cases hx.symm.trans hasleep

/-- A task that is ready neither sleeps nor waits. -/
theorem Tracks.out_of_ready (h : Tracks state s) (hx : state x = .READY) :
    (∀ n, x ∉ s.waiting n) ∧ x ∉ s.asleep.map Prod.fst := by
  refine ⟨fun n hmem => ?_, fun hmem => ?_⟩
  · cases hx.symm.trans (h.waiting n x hmem)
  · rcases h.asleep_state hmem with hasleep | hasleep <;> cases hx.symm.trans hasleep

/-- The state of a task in no list is of no account. -/
theorem Tracks.update (h : Tracks state s) (hout : s.Out x) (v : TaskState) :
    Tracks (update state x v) s := by
  refine ⟨fun y hy => ?_, fun n y hy => ?_, fun y hy => ?_⟩
  · have hne : y ≠ x := fun heq => hout.1 none (heq ▸ hy)
    rw [update_of_ne hne]
    exact h.ready y hy
  · have hne : y ≠ x := fun heq => hout.1 (some n) (heq ▸ hy)
    rw [update_of_ne hne]
    exact h.waiting n y hy
  · have hne : y ≠ x := fun heq => hout.2 (heq ▸ hy)
    rw [update_of_ne hne]
    exact h.asleep y hy

theorem Refines.sys_switch (h : Refines k s) : Refines k.sys_switch s :=
  { h with queues := ⟨h.queues.queues, h.queues.cb_type⟩, run := h.new_tsk }

theorem Refines.run_out (h : Refines k s) : s.Out s.run := h.tracks.out (.inl h.running)

theorem Holds.tokens_update (h : Holds k s) (v m : Nat) :
    update k.tokens (.scb n) v (.scb m) = update s.tokens n v m := by
  by_cases hm : m = n
  · rw [hm, update_self, update_self]
  · rw [update_of_ne hm, update_of_ne fun heq => hm (Ptr.scb.inj heq), h.tokens]

/-! ## Switching -/

/-- The end of a call in which the running task was put aside. What `os_tsk.run` is
    by then does not matter. -/
theorem Holds.resume (h : Holds k s) (ht : Tracks k.state s) (hready : s.ready = x :: l)
    (run : Option Ptr) :
    ∃ k', { k with run := run }.rt_get_first .os_rdy = some (x, k') ∧
      Refines (k'.rt_switch_req x).sys_switch s.resume := by
  have hqueues₀ : HoldsQueues { k with run := run } s.queues := ⟨h.queues.queues, h.queues.cb_type⟩
  obtain ⟨lnk, rlnk, heq, hqueues⟩ := hqueues₀.get_first (i := none) hready
  have hresume : s.resume = { s with run := x, ready := l } := by rw [Scheduler.resume, hready]
  have hxready : x ∈ s.ready := hready ▸ List.mem_cons_self
  have hnodup : (x :: l).Nodup := hready ▸ h.queues.queues.nodup none
  have hxstate := ht.ready x hxready
  obtain ⟨hxwaiting, hxasleep⟩ := ht.out_of_ready hxstate
  have hrest : Tracks k.state { s with run := x, ready := l } :=
    ⟨fun y hy => ht.ready y (hready ▸ List.mem_cons_of_mem x hy), ht.waiting, ht.asleep⟩
  have hout : ({ s with run := x, ready := l } : Scheduler Ptr).Out x :=
    ⟨fun i => by cases i; exacts [(List.nodup_cons.mp hnodup).1, hxwaiting _], hxasleep⟩
  rw [hresume]
  rw [← Scheduler.queues_ready] at hqueues
  exact ⟨_, heq,
    { h with
      queues := ⟨hqueues.queues, hqueues.cb_type⟩
      run := rfl
      run_task := h.queues.queues.tasks none x hxready
      tracks := hrest.update hout _
      new_tsk := rfl
      running := update_self _ _ _ }⟩

/-- `rt_dispatch`, of a task in no list. -/
theorem Refines.dispatch (h : Refines k s) (hx : x ∈ pool k.os_maxtaskrun) (hout : s.Out x)
    (hne : x ≠ s.run) :
    ∃ k', k.rt_dispatch (some x) = some k' ∧ Refines k'.sys_switch (s.dispatch x) := by
  have hprio := h.prio
  rw [Kernel.rt_dispatch, bind_of_eq_some h.run, Scheduler.dispatch]
  by_cases hlt : s.prio s.run < s.prio x
  · have hqueues := h.queues.put_rdy_first h.run_task h.run_out.1
    rw [show s.queues none = s.ready from rfl, ← Scheduler.queues_ready] at hqueues
    have hrun : Tracks (update k.state s.run .READY) { s with run := x, ready := s.run :: s.ready } := by
      have hrest := h.tracks.update h.run_out .READY
      refine ⟨fun y hy => ?_, hrest.waiting, hrest.asleep⟩
      rcases List.mem_cons.mp hy with rfl | hy
      · exact update_self _ _ _
      · exact hrest.ready y hy
    have hout' : ({ s with run := x, ready := s.run :: s.ready } : Scheduler Ptr).Out x := by
      refine ⟨fun i => ?_, hout.2⟩
      cases i with
      | none => exact fun hmem => (List.mem_cons.mp hmem).elim hne (hout.1 none)
      | some n => exact hout.1 (some n)
    rw [if_pos (hprio ▸ hlt), if_pos hlt]
    exact ⟨_, rfl,
      { h with
        queues := ⟨hqueues.queues, hqueues.cb_type⟩
        run := rfl
        run_task := hx
        tracks := hrun.update hout' _
        new_tsk := rfl
        running := update_self _ _ _ }⟩
  · have hstate : HoldsQueues { k with state := update k.state x .READY } s.queues :=
      ⟨h.queues.queues, h.queues.cb_type⟩
    obtain ⟨lnk, rlnk, heq, hqueues⟩ := hstate.put_prio (i := none) hx hout.1
    have hprio' : Kernel.prio { k with state := update k.state x .READY } = s.prio := h.prio
    rw [show s.queues none = s.ready from rfl, ← Scheduler.queues_ready, hprio'] at hqueues
    have hready : Tracks (update k.state x .READY) { s with ready := enqueue s.prio x s.ready } := by
      have hrest := h.tracks.update hout .READY
      refine ⟨fun y hy => ?_, hrest.waiting, hrest.asleep⟩
      rcases mem_enqueue.mp hy with rfl | hy
      · exact update_self _ _ _
      · exact hrest.ready y hy
    rw [if_neg (hprio ▸ hlt), if_neg hlt]
    exact ⟨_, heq,
      { h with
        queues := ⟨hqueues.queues, hqueues.cb_type⟩
        run := h.new_tsk
        tracks := hready
        running := (update_of_ne hne.symm _ _).trans h.running }⟩

/-- `rt_init_context`, on a block that is free. -/
theorem Refines.init_context (h : Refines k s) (hx : x ∈ pool k.os_maxtaskrun) (hout : s.Out x)
    (hne : x ≠ s.run) (priority : Nat) :
    Refines (k.rt_init_context x priority) { s with prio := update s.prio x priority } := by
  have hqueues := h.queues.queues.clear hx hout.1
  have ht := h.tracks.update hout .READY
  refine { h with
    queues := ⟨hqueues, fun i => ?_⟩
    delays := h.delays.clear hx hout.2
    prio := ?_
    tracks := ⟨ht.ready, ht.waiting, ht.asleep⟩
    running := (update_of_ne hne.symm _ _).trans h.running }
  · dsimp only [Kernel.rt_init_context]
    rw [update_of_ne fun heq : head i = x => head_not_mem_pool i (heq ▸ hx)]
    exact h.queues.cb_type i
  · dsimp only [Kernel.rt_init_context]
    rw [h.prio]

/-- Priority 0 is reserved. -/
theorem max_prio_stksz (prio_stksz : Nat) :
    (if prio_stksz % 256 = 0 then prio_stksz + 1 else prio_stksz) % 256 =
      max 1 (prio_stksz % 256) := by
  split <;> omega

/-- `rt_tsk_create`, on a block that is free. -/
theorem Refines.tsk_create (h : Refines k s) (hn : n < k.os_maxtaskrun)
    (hfree : k.state (.tcb n) = .INACTIVE) (prio_stksz : Nat) :
    ∃ k', k.rt_tsk_create (.tcb n) prio_stksz = some k' ∧
      Refines k'.sys_switch (s.create (.tcb n) (max 1 (prio_stksz % 256))) := by
  have hx : .tcb n ∈ pool k.os_maxtaskrun := by simp [pool, hn]
  have hout := h.tracks.out (.inr hfree)
  have hne : .tcb n ≠ s.run := fun heq => by cases (heq ▸ hfree).symm.trans h.running
  have hinit := h.init_context hx hout hne (max 1 (prio_stksz % 256))
  rw [Kernel.rt_tsk_create, max_prio_stksz]
  exact hinit.dispatch hx hout hne

/-- `rt_tsk_delete` -/
theorem Refines.tsk_delete (h : Refines k s) (hready : s.ready ≠ []) :
    ∃ k', k.rt_tsk_delete = some k' ∧ Refines k'.sys_switch s.resume := by
  obtain ⟨x, l, hxl⟩ := List.exists_cons_of_ne_nil hready
  have hended : Holds { k with state := update k.state s.run .INACTIVE } s :=
    { h with queues := ⟨h.queues.queues, h.queues.cb_type⟩ }
  obtain ⟨k', hfirst, hrefines⟩ := hended.resume (h.tracks.update h.run_out _) hxl none
  refine ⟨_, ?_, hrefines⟩
  rw [Kernel.rt_tsk_delete, bind_of_eq_some h.run]
  exact bind_of_eq_some hfirst _

/-! ## Blocking -/

/-- The running task goes to sleep for `d` ticks, or for ever. -/
theorem Holds.sleep (h : Holds k s) (hout : s.run ∉ s.asleep.map Prod.fst) (hpos : 0 < d) :
    ∃ dlnk blnk delta,
      (if d < 65535 then k.rt_put_dly s.run d else some k) = some (k.redelay dlnk blnk delta) ∧
      Holds (k.redelay dlnk blnk delta) (s.sleep d) := by
  rw [Scheduler.sleep]
  by_cases hd : d < 65535
  · obtain ⟨dlnk, blnk, delta, heq, hdelays⟩ := h.delays.put_dly h.run_task hout hpos hd
    rw [if_pos hd, if_pos hd]
    exact ⟨dlnk, blnk, delta, heq,
      { h with queues := ⟨h.queues.queues, h.queues.cb_type⟩, delays := hdelays }⟩
  · rw [if_neg hd, if_neg hd]
    exact ⟨k.p_dlnk, k.p_blnk, k.delta_time, rfl, h⟩

theorem Tracks.sleep (h : Tracks state s)
    (hrun : state s.run = .WAIT_DLY ∨ ∃ n, s.run ∈ s.waiting n) : Tracks state (s.sleep d) := by
  rw [Scheduler.sleep]
  split
  · refine ⟨h.ready, h.waiting, fun x hx => ?_⟩
    obtain ⟨y, hy, rfl⟩ := List.mem_map.mp hx
    rcases DeltaList.mem_insert.mp hy with rfl | hy
    · exact hrun
    · exact h.asleep y.1 (List.mem_map_of_mem hy)
  · exact h

/-- `rt_block`. The state of the running task has to fit the lists that it is put in. -/
theorem Holds.block (h : Holds k s) (hout : s.run ∉ s.asleep.map Prod.fst) (hpos : 0 < d)
    {block_state : TaskState} (hblock : block_state = .WAIT_DLY ∨ ∃ n, s.run ∈ s.waiting n)
    (ht : Tracks (update k.state s.run block_state) s) (hready : s.ready = x :: l) :
    ∃ k', k.rt_block d block_state = some k' ∧ Refines k'.sys_switch (s.sleep d).resume := by
  obtain ⟨dlnk, blnk, delta, heq, hsleep⟩ := h.sleep hout hpos
  have hstate : Holds { k.redelay dlnk blnk delta with state := update k.state s.run block_state }
      (s.sleep d) :=
    { hsleep with queues := ⟨hsleep.queues.queues, hsleep.queues.cb_type⟩ }
  have htracks := ht.sleep (d := d) (by rwa [update_self])
  obtain ⟨k', hfirst, hrefines⟩ := hstate.resume htracks ((s.ready_sleep d).trans hready) k.run
  refine ⟨_, ?_, hrefines⟩
  rw [Kernel.rt_block, if_pos (Nat.ne_of_gt hpos), bind_of_eq_some h.run, bind_of_eq_some heq]
  exact bind_of_eq_some hfirst _

/-- `rt_dly_wait` -/
theorem Refines.dly_wait (h : Refines k s) (hready : s.ready ≠ []) :
    ∃ k', k.rt_dly_wait d = some k' ∧ Refines k'.sys_switch (s.delay d) := by
  rw [Kernel.rt_dly_wait, Scheduler.delay]
  by_cases hd : d = 0
  · subst hd
    exact ⟨k, rfl, h.sys_switch⟩
  · obtain ⟨x, l, hxl⟩ := List.exists_cons_of_ne_nil hready
    rw [if_neg hd]
    exact h.block h.run_out.2 (Nat.pos_of_ne_zero hd) (.inl rfl) (h.tracks.update h.run_out _) hxl

/-- `rt_tsk_pass` -/
theorem Refines.tsk_pass (h : Refines k s) (hready : s.ready ≠ []) :
    ∃ k', k.rt_tsk_pass = some k' ∧ Refines k'.sys_switch s.pass := by
  obtain ⟨x, l, hxl⟩ := List.exists_cons_of_ne_nil hready
  obtain ⟨lnk, rlnk, heq, hqueues⟩ := h.queues.get_same_rdy_prio hxl s.run
  rw [Kernel.rt_tsk_pass, bind_of_eq_some h.run, bind_of_eq_some heq, Scheduler.pass, hxl]
  by_cases hsame : s.prio x = s.prio s.run
  · have hxready : x ∈ s.ready := hxl ▸ List.mem_cons_self
    have hnodup : (x :: l).Nodup := hxl ▸ h.queues.queues.nodup none
    have hrun_ready : s.run ∉ x :: l := hxl ▸ h.run_out.1 none
    have hrun_out : ∀ j, s.run ∉ update s.queues none l j := by
      intro j hmem
      cases j with
      | none => exact hrun_ready (List.mem_cons_of_mem x hmem)
      | some n => exact h.run_out.1 (some n) hmem
    obtain ⟨lnk', rlnk', hput, hqueues'⟩ := hqueues.put_prio (i := none) h.run_task hrun_out
    have hkprio : (k.relink lnk rlnk).prio = s.prio := h.prio
    rw [update_self, update_idem, hkprio, ← Scheduler.queues_ready] at hqueues'
    have hprio : k.prio x = k.prio s.run := by rw [h.prio, hsame]
    obtain ⟨hxwaiting, hxasleep⟩ := h.tracks.out_of_ready (h.tracks.ready x hxready)
    have ht := h.tracks.update h.run_out .READY
    have hrest : Tracks (update k.state s.run .READY)
        { s with run := x, ready := enqueue s.prio s.run l } := by
      refine ⟨fun y hy => ?_, ht.waiting, ht.asleep⟩
      rcases mem_enqueue.mp hy with rfl | hy
      · exact update_self _ _ _
      · exact ht.ready y (hxl ▸ List.mem_cons_of_mem x hy)
    have hout : ({ s with run := x, ready := enqueue s.prio s.run l } : Scheduler Ptr).Out x := by
      refine ⟨fun i hmem => ?_, hxasleep⟩
      cases i with
      | none =>
        rcases mem_enqueue.mp hmem with rfl | hmem
        · exact h.run_out.1 none hxready
        · exact (List.nodup_cons.mp hnodup).1 hmem
      | some n => exact hxwaiting n hmem
    rw [if_pos hprio]
    dsimp only
    rw [if_pos hsame]
    exact ⟨_, bind_of_eq_some hput _,
      { h with
        queues := ⟨hqueues'.queues, hqueues'.cb_type⟩
        run := rfl
        run_task := h.queues.queues.tasks none x hxready
        tracks := hrest.update hout _
        new_tsk := rfl
        running := update_self _ _ _ }⟩
  · have hprio : k.prio x ≠ k.prio s.run := by rwa [h.prio]
    rw [if_neg hprio]
    dsimp only
    rw [if_neg hsame]
    exact ⟨k, rfl, h.sys_switch⟩

/-! ## Semaphores -/

/-- The running task is put into the list of a semaphore. -/
theorem Refines.put_scb (h : Refines k s) (n : Nat) :
    ∃ lnk rlnk,
      (if k.p_lnk (.scb n) ≠ none then k.rt_put_prio (.scb n) s.run
        else some { k with
          p_lnk := update (update k.p_lnk (.scb n) (some s.run)) s.run none
          p_rlnk := update k.p_rlnk s.run (some (.scb n)) }) = some (k.relink lnk rlnk) ∧
      HoldsQueues (k.relink lnk rlnk)
        { s with waiting := update s.waiting n (enqueue s.prio s.run (s.waiting n)) }.queues := by
  have hfirst : k.p_lnk (.scb n) = (s.waiting n).head? :=
    Chain.next_getLastD (l := []) (h.queues.queues.chain (some n))
  rw [Scheduler.queues_waiting, ← h.prio]
  by_cases hempty : s.waiting n = []
  · have hin := h.queues.queues.insert (i := some n) (l := []) (r := []) hempty h.run_task
      h.run_out.1 rfl
    have hne : s.run ≠ .scb n := fun heq => head_not_mem_pool (some n) (heq ▸ h.run_task)
    have hscb : k.p_lnk (.scb n) = none := by rw [hfirst, hempty, List.head?_nil]
    have hlnk : insertAfter k.p_lnk (.scb n) s.run =
        update (update k.p_lnk (.scb n) (some s.run)) s.run none := by
      rw [insertAfter, hscb, update_comm hne]
    refine ⟨_, _, if_neg (not_not.mpr hscb), h.queues.relink ?_⟩
    rw [← hlnk, hempty]
    exact hin
  · rw [if_pos (by simpa [hfirst] using hempty)]
    exact h.queues.put_prio (i := some n) h.run_task h.run_out.1

/-- `rt_sem_wait` -/
theorem Refines.sem_wait (h : Refines k s) (hready : s.ready ≠ []) (n d : Nat) :
    ∃ k', k.rt_sem_wait n d = some (if (s.wait n d).2 then .OS_R_OK else .OS_R_TMO, k') ∧
      Refines k'.sys_switch (s.wait n d).1 := by
  have htokens := h.tokens n
  rw [Kernel.rt_sem_wait, Scheduler.wait]
  by_cases hkept : s.tokens n ≠ 0
  · rw [if_pos (htokens ▸ hkept), if_pos hkept, htokens]
    have hleft : Refines { k with tokens := update k.tokens (.scb n) (s.tokens n - 1) }
        { s with tokens := update s.tokens n (s.tokens n - 1) } :=
      { h with
        queues := ⟨h.queues.queues, h.queues.cb_type⟩
        tokens := h.tokens_update _
        tracks := ⟨h.tracks.ready, h.tracks.waiting, h.tracks.asleep⟩ }
    exact ⟨_, rfl, hleft.sys_switch⟩
  · rw [if_neg (htokens ▸ hkept), if_neg hkept]
    by_cases hd : d = 0
    · rw [if_pos hd, if_pos hd]
      exact ⟨k, rfl, h.sys_switch⟩
    · obtain ⟨lnk, rlnk, heq, hqueues⟩ := h.put_scb n
      obtain ⟨x, l, hxl⟩ := List.exists_cons_of_ne_nil hready
      have hput : Holds (k.relink lnk rlnk)
          { s with waiting := update s.waiting n (enqueue s.prio s.run (s.waiting n)) } :=
        { h with queues := hqueues }
      have ht := h.tracks.update h.run_out .WAIT_SEM
      have hwaiting : Tracks (update k.state s.run .WAIT_SEM)
          { s with waiting := update s.waiting n (enqueue s.prio s.run (s.waiting n)) } := by
        refine ⟨ht.ready, fun m y hy => ?_, fun y hy => (ht.asleep y hy).imp_right fun ⟨m, hm⟩ => ⟨m, ?_⟩⟩
        · rcases Scheduler.mem_waiting_put.mp hy with ⟨-, rfl⟩ | hy
          · exact update_self _ _ _
          · exact ht.waiting m y hy
        · exact Scheduler.mem_waiting_put.mpr (.inr hm)
      rw [if_neg hd, if_neg hd]
      obtain ⟨k', hblock, hrefines⟩ :=
        hput.block h.run_out.2 (Nat.pos_of_ne_zero hd)
          (.inr ⟨n, Scheduler.mem_waiting_put.mpr (.inl ⟨rfl, rfl⟩)⟩) hwaiting hxl
      refine ⟨k', ?_, hrefines⟩
      rw [bind_of_eq_some h.run, bind_of_eq_some heq, bind_of_eq_some hblock]
      rfl

/-- `rt_sem_send`, below the largest count. -/
theorem Refines.sem_send (h : Refines k s) (hlimit : s.tokens n < 65535) :
    ∃ k', k.rt_sem_send n = some ((s.signal n).2, k') ∧ Refines k'.sys_switch (s.signal n).1 := by
  have hfirst : k.p_lnk (.scb n) = (s.waiting n).head? :=
    Chain.next_getLastD (l := []) (h.queues.queues.chain (some n))
  rw [Kernel.rt_sem_send, Scheduler.signal, hfirst]
  cases hwaiting : s.waiting n with
  | nil =>
    have hword : u16 (k.tokens (.scb n) + 1) = s.tokens n + 1 := by
      rw [h.tokens, u16]
      omega
    have hkept : Refines { k with tokens := update k.tokens (.scb n) (s.tokens n + 1) }
        { s with tokens := update s.tokens n (s.tokens n + 1) } :=
      { h with
        queues := ⟨h.queues.queues, h.queues.cb_type⟩
        tokens := h.tokens_update _
        tracks := ⟨h.tracks.ready, h.tracks.waiting, h.tracks.asleep⟩ }
    rw [hword]
    exact ⟨_, rfl, hkept.sys_switch⟩
  | cons x l =>
    have hxin : x ∈ s.waiting n := hwaiting ▸ List.mem_cons_self
    have hx := h.queues.queues.tasks (some n) x hxin
    have hnodup : (x :: l).Nodup := hwaiting ▸ h.queues.queues.nodup (some n)
    obtain ⟨lnk, rlnk, hget, hqueues⟩ := h.queues.get_first (i := some n) hwaiting
    have hdelays : HoldsDelays (k.relink lnk rlnk) s.asleep := h.delays
    obtain ⟨dlnk, blnk, delta, hrmv, hdelays'⟩ := hdelays.rmv_dly hx
    have hout : ({ s with
        waiting := update s.waiting n l
        asleep := s.asleep.filter fun y => y.1 ≠ x } : Scheduler Ptr).Out x := by
      refine ⟨fun i hmem => ?_, fun hmem => ?_⟩
      · by_cases hi : i = some n
        · subst hi
          refine (List.nodup_cons.mp hnodup).1 ?_
          simpa [Scheduler.queues] using hmem
        · refine hi (h.queues.queues.apart i (some n) x ?_ hxin)
          cases i with
          | none => exact hmem
          | some m =>
            have hm : m ≠ n := fun heq => hi (heq ▸ rfl)
            simpa [Scheduler.queues, hm] using hmem
      · obtain ⟨y, hy, heq⟩ := List.mem_map.mp hmem
        exact of_decide_eq_true (List.mem_filter.mp hy).2 heq
    have htaken : Refines ((k.relink lnk rlnk).redelay dlnk blnk delta) { s with
        waiting := update s.waiting n l
        asleep := s.asleep.filter fun y => y.1 ≠ x } := by
      rw [← Scheduler.queues_waiting] at hqueues
      refine { h with
        queues := ⟨hqueues.queues, hqueues.cb_type⟩
        delays := hdelays'
        tracks := ⟨h.tracks.ready, fun m y hy => ?_, fun y hy => ?_⟩ }
      · by_cases hm : m = n
        · subst hm
          refine h.tracks.waiting m y (hwaiting ▸ List.mem_cons_of_mem x ?_)
          simpa using hy
        · exact h.tracks.waiting m y (by simpa [hm] using hy)
      · obtain ⟨z, hz, rfl⟩ := List.mem_map.mp hy
        obtain ⟨hz, hne⟩ := List.mem_filter.mp hz
        refine (h.tracks.asleep z.1 (List.mem_map_of_mem hz)).imp_right (Exists.imp fun m hm => ?_)
        by_cases heq : m = n
        · subst heq
          dsimp only
          rw [update_self]
          exact (List.mem_cons.mp (hwaiting ▸ hm)).resolve_left (of_decide_eq_true hne)
        · simpa [heq] using hm
    have hne : x ≠ s.run := fun heq => h.run_out.1 (some n) (heq ▸ hxin)
    obtain ⟨k', hdispatch, hrefines⟩ := htaken.dispatch hx hout hne
    refine ⟨k', ?_, hrefines⟩
    have hget' : k.rt_get_first (.scb n) = some (x, k.relink lnk rlnk) := hget
    rw [List.head?_cons, if_pos (Option.some_ne_none x), hget']
    dsimp only [Option.bind_eq_bind, Option.bind_some]
    rw [hrmv, hdispatch]
    rfl

/-! ## The tick -/

/-- The first task of the delay list is due: a pass of the loop of `rt_dec_dly`. -/
theorem Holds.wake {a : List (Ptr × Nat)} (h : Holds k s) (ht : Tracks k.state s)
    (hasleep : s.asleep = (x, 0) :: a) :
    ∃ k', (k.leave_wait_list x).rt_put_prio .os_rdy x = some k' ∧
      Holds (k'.leave_dly x) ({ s with asleep := a }.wake x) ∧
      Tracks (k'.leave_dly x).state ({ s with asleep := a }.wake x) := by
  have hxin : x ∈ s.asleep.map Prod.fst := by
    rw [hasleep]
    exact List.mem_cons_self
  have hx := h.delays.tasks x hxin
  have hxstate := ht.asleep_state hxin
  have hxready : x ∉ s.ready := by
    intro hmem
    rcases hxstate with hxstate | hxstate <;> cases (ht.ready x hmem).symm.trans hxstate
  obtain ⟨lnk, rlnk, hleave, hdropped⟩ := h.queues.leave_wait_list hx
  have hout : ∀ i, x ∉ dropTask s.queues x i := by
    intro i hmem
    cases i with
    | none => exact hxready hmem
    | some n => exact of_decide_eq_true (List.mem_filter.mp hmem).2 rfl
  obtain ⟨lnk', rlnk', hput, hqueues⟩ := hdropped.put_prio (i := none) hx hout
  have hitv : k.state x ≠ .WAIT_ITV := by rcases hxstate with hx | hx <;> rw [hx] <;> nofun
  have hdelays : HoldsDelays ((k.relink lnk rlnk).relink lnk' rlnk') ((x, 0) :: a) := hasleep ▸ h.delays
  obtain ⟨dlnk, blnk, delta, hdly, hdelays'⟩ := hdelays.leave_dly hitv
  rw [hleave]
  refine ⟨_, hput, ?_, ?_⟩
  · have hprio : (k.relink lnk rlnk).prio = s.prio := h.prio
    have hwoken : ({ s with asleep := a }.wake x : Scheduler Ptr).queues =
        update (dropTask s.queues x) none (enqueue s.prio x s.ready) := by
      funext i
      cases i <;> rfl
    rw [hprio, show dropTask s.queues x none = s.ready from rfl, ← hwoken] at hqueues
    rw [hdly]
    exact { h with queues := ⟨hqueues.queues, hqueues.cb_type⟩, delays := hdelays' }
  · rw [hdly]
    have hnodup : ((x, 0) :: a).map Prod.fst |>.Nodup := hasleep ▸ h.delays.nodup
    refine ⟨fun y hy => ?_, fun n y hy => ?_, fun y hy => ?_⟩
    · rcases mem_enqueue.mp hy with rfl | hy
      · exact update_self _ _ _
      · have hne : y ≠ x := fun heq => hxready (heq ▸ hy)
        exact (update_of_ne hne _ _).trans (ht.ready y hy)
    · obtain ⟨hy, hne⟩ := List.mem_filter.mp hy
      exact (update_of_ne (of_decide_eq_true hne) _ _).trans (ht.waiting n y hy)
    · have hne : y ≠ x := fun heq => (List.nodup_cons.mp hnodup).1 (heq ▸ hy)
      have hmem : y ∈ s.asleep.map Prod.fst := by
        rw [hasleep]
        exact List.mem_cons_of_mem _ hy
      refine (ht.asleep y hmem).imp (fun hstate => ?_) fun ⟨n, hn⟩ => ⟨n, ?_⟩
      · exact (update_of_ne hne _ _).trans hstate
      · exact List.mem_filter.mpr ⟨hn, decide_eq_true hne⟩

/-- The loop of `rt_dec_dly` wakes the tasks that are due, one after the other. -/
theorem Holds.dec_dly_loop (h : Holds k s) (ht : Tracks k.state s) (hn : s.asleep.length < n) :
    ∃ k', Kernel.dec_dly_loop n k = some k' ∧
      let s' := ((s.asleep.takeWhile fun y => y.2 = 0).map Prod.fst).foldl Scheduler.wake
        { s with asleep := s.asleep.dropWhile fun y => y.2 = 0 }
      Holds k' s' ∧ Tracks k'.state s' := by
  induction n generalizing k s with
  | zero => cases hn
  | succ n ih =>
    have hfirst : k.p_dlnk .os_dly = (s.asleep.map Prod.fst).head? :=
      HoldsDelays.dlnk_last (l := []) h.delays
    have hdelta : k.delta_time .os_dly = DeltaList.gap (.os_dly, 0) s.asleep :=
      Delays.delta_last (l := []) h.delays
    rw [Kernel.dec_dly_loop, hfirst, hdelta]
    cases hasleep : s.asleep with
    | nil =>
      have hsame : ({ s with asleep := [] } : Scheduler Ptr) = s := by rw [← hasleep]
      exact ⟨k, rfl, hsame ▸ h, hsame ▸ ht⟩
    | cons y a =>
      obtain ⟨x, t⟩ := y
      by_cases hdue : t = 0
      · subst hdue
        obtain ⟨k₁, hput, hholds, htracks⟩ := h.wake ht hasleep
        have hlen : ({ s with asleep := a }.wake x : Scheduler Ptr).asleep.length < n := by
          rw [hasleep] at hn
          exact Nat.lt_of_succ_lt_succ hn
        obtain ⟨k', hloop, hrest⟩ := ih hholds htracks hlen
        refine ⟨k', ?_, ?_⟩
        · have hzero : DeltaList.gap (Ptr.os_dly, 0) ((x, 0) :: a) = 0 := rfl
          rw [if_pos hzero]
          exact (bind_of_eq_some hput _).trans hloop
        · simp only [List.takeWhile_cons_of_pos, List.dropWhile_cons_of_pos, decide_true,
            List.map_cons, List.foldl_cons]
          exact hrest
      · have hlate : DeltaList.gap (Ptr.os_dly, 0) ((x, t) :: a) ≠ 0 := hdue
        have hsame : ({ s with asleep := (x, t) :: a } : Scheduler Ptr) = s := by rw [← hasleep]
        rw [if_neg hlate]
        refine ⟨k, rfl, ?_⟩
        simp only [decide_eq_true_eq, hdue, not_false_eq_true, List.takeWhile_cons_of_neg,
          List.dropWhile_cons_of_neg, List.map_nil, List.foldl_nil]
        rw [hsame]
        exact ⟨h, ht⟩

/-- `rt_dec_dly` -/
theorem Holds.dec_dly (h : Holds k s) (ht : Tracks k.state s) (htimes : ∀ y ∈ s.asleep, 0 < y.2) :
    ∃ k', k.rt_dec_dly = some k' ∧
      let s' := s.due.foldl Scheduler.wake
        { s with asleep := (DeltaList.tick s.asleep).dropWhile fun y => y.2 = 0 }
      Holds k' s' ∧ Tracks k'.state s' := by
  have hfirst : k.p_dlnk .os_dly = (s.asleep.map Prod.fst).head? :=
    HoldsDelays.dlnk_last (l := []) h.delays
  rw [Kernel.rt_dec_dly]
  by_cases hempty : s.asleep = []
  · have hnone : k.p_dlnk .os_dly = none := by rw [hfirst, hempty, List.map_nil, List.head?_nil]
    have hdue : s.due = [] := by simp [Scheduler.due, hempty, DeltaList.tick]
    have hsame : ({ s with asleep := (DeltaList.tick s.asleep).dropWhile fun y => y.2 = 0 } :
        Scheduler Ptr) = s := by
      rw [show (DeltaList.tick s.asleep).dropWhile (fun y => decide (y.2 = 0)) = s.asleep by
        simp [hempty, DeltaList.tick]]
    rw [hnone, hdue, hsame]
    exact ⟨k, rfl, h, ht⟩
  · obtain ⟨y, a, hasleep⟩ := List.exists_cons_of_ne_nil hempty
    have hsome : k.p_dlnk .os_dly = some y.1 := by rw [hfirst, hasleep, List.map_cons, List.head?_cons]
    have hdelays := (hasleep ▸ h.delays : HoldsDelays k (y :: a)).tick
      (htimes y (hasleep ▸ List.mem_cons_self))
    have hticked : Holds { k with
        delta_time := update k.delta_time .os_dly (u16 (k.delta_time .os_dly + 65535)) }
        { s with asleep := DeltaList.tick s.asleep } := by
      rw [← hasleep] at hdelays
      exact { h with queues := ⟨h.queues.queues, h.queues.cb_type⟩, delays := hdelays }
    have htracks : Tracks k.state { s with asleep := DeltaList.tick s.asleep } := by
      refine ⟨ht.ready, ht.waiting, ?_⟩
      dsimp only
      rw [DeltaList.map_fst_tick]
      exact ht.asleep
    have hlen : (DeltaList.tick s.asleep).length < k.passes := by
      have hlen := length_lt_passes h.delays.nodup h.delays.tasks
      rw [List.length_map] at hlen
      rwa [DeltaList.tick, List.length_map]
    rw [hsome]
    exact hticked.dec_dly_loop htracks hlen

/-- What `rt_chk_robin` sets `os_robin` to, before it looks whether the time is up. -/
def Kernel.restart_robin (k : Kernel) : Robin :=
  if k.os_robin.task ≠ k.p_lnk .os_rdy then
    { k.os_robin with
      task := k.p_lnk .os_rdy
      time := u16 (u16 k.os_time + k.os_robin.tout + 4294967295) }
  else k.os_robin

theorem Kernel.rt_chk_robin_eq (k : Kernel) :
    k.rt_chk_robin =
      if k.restart_robin.time = u16 k.os_time then do
        let (p_new, k) ← { k with os_robin := { k.restart_robin with task := none } }.rt_get_first .os_rdy
        k.rt_put_prio .os_rdy p_new
      else some { k with os_robin := k.restart_robin } := by
  rw [Kernel.rt_chk_robin, Kernel.restart_robin]
  split <;> rfl

/-- The task that runs may run for as many ticks as the scheduler says. -/
theorem Robin.Keeps.restart (h : k.os_robin.Keeps k.os_time s.slice) (htout : k.os_robin.tout = s.tout)
    (hpos : 0 < s.tout) (hword : s.tout < 65536) (hfirst : k.p_lnk .os_rdy = some s.run) :
    k.restart_robin.task = some s.run ∧ k.restart_robin.tout = s.tout ∧
      k.restart_robin.time = u16 (k.os_time + s.left) ∧ s.left < 65536 := by
  rw [Kernel.restart_robin, hfirst, Scheduler.left]
  have hfresh : u16 (u16 k.os_time + k.os_robin.tout + 4294967295) = u16 (k.os_time + (s.tout - 1)) := by
    rw [htout, u16, u16, u16]
    omega
  have hleft : s.tout - 1 < 65536 := by omega
  cases hslice : s.slice with
  | none =>
    have htask : k.os_robin.task = none := by
      rw [hslice] at h
      exact h
    rw [if_pos (by rw [htask]; exact (Option.some_ne_none _).symm)]
    exact ⟨rfl, htout, hfresh, hleft⟩
  | some y =>
    obtain ⟨x, n⟩ := y
    obtain ⟨htask, hn, htime⟩ : k.os_robin.task = some x ∧ n < 65536 ∧ k.os_robin.time = u16 (k.os_time + n) := by
      rw [hslice] at h
      exact h
    by_cases hx : x = s.run
    · subst hx
      rw [if_neg (not_not.mpr htask)]
      dsimp only
      rw [if_pos rfl]
      exact ⟨htask, htout, htime, hn⟩
    · rw [if_pos (by rw [htask]; exact fun heq => hx (Option.some.inj heq))]
      dsimp only
      rw [if_neg hx]
      exact ⟨rfl, htout, hfresh, hleft⟩

/-- A time in the 16 bits of `os_robin`, as it looks one tick later. -/
theorem u16_later (now : Nat) {left : Nat} (h : left ≠ 0) :
    u16 (now + left) = u16 (u32 (now + 1) + (left - 1)) := by
  rw [u16, u16, u32]
  omega

/-- `rt_chk_robin` and the step of the time after it, with the running task in front of
    the ready list. -/
theorem Holds.chk_robin (h : Holds k { s with ready := s.run :: s.ready }) (hpos : 0 < s.tout)
    (hword : s.tout < 65536) :
    ∃ k', k.rt_chk_robin = some k' ∧ k'.state = k.state ∧
      Holds { k' with os_time := u32 (k'.os_time + 1) }
        { s with ready := s.rotate.1, slice := s.rotate.2 } := by
  have hfirst : k.p_lnk .os_rdy = some s.run := (h.queues.queues.chain none).1
  obtain ⟨htask, htout, htime, hleft⟩ := Robin.Keeps.restart (s := s) h.slice h.tout hpos hword hfirst
  have hup : k.restart_robin.time = u16 k.os_time ↔ s.left = 0 := by
    rw [htime, u16, u16]
    omega
  rw [Kernel.rt_chk_robin_eq, Scheduler.rotate]
  by_cases hzero : s.left = 0
  · rw [if_pos (hup.mpr hzero), if_pos hzero]
    have hexpired : HoldsQueues { k with os_robin := { k.restart_robin with task := none } }
        { s with ready := s.run :: s.ready }.queues := ⟨h.queues.queues, h.queues.cb_type⟩
    obtain ⟨lnk, rlnk, hget, hqueues⟩ := hexpired.get_first (i := none) rfl
    have hout : ∀ i, s.run ∉ update { s with ready := s.run :: s.ready }.queues none s.ready i := by
      intro i hmem
      cases i with
      | none => exact (List.nodup_cons.mp (h.queues.queues.nodup none)).1 hmem
      | some n => cases h.queues.queues.apart (some n) none s.run hmem List.mem_cons_self
    obtain ⟨lnk', rlnk', hput, hqueues'⟩ := hqueues.put_prio (i := none) h.run_task hout
    rw [update_self, update_idem, show Kernel.prio _ = s.prio from h.prio, ← Scheduler.queues_ready] at hqueues'
    exact ⟨_, (bind_of_eq_some hget _).trans hput, rfl,
      { h with queues := ⟨hqueues'.queues, hqueues'.cb_type⟩, tout := htout, slice := rfl }⟩
  · rw [if_neg (mt hup.mp hzero), if_neg hzero]
    exact ⟨_, rfl, rfl,
      { h with
        queues := ⟨h.queues.queues, h.queues.cb_type⟩
        tout := htout
        slice := ⟨htask, by omega, htime.trans (u16_later _ hzero)⟩ }⟩

/-- `rt_systick` -/
theorem Refines.systick (h : Refines k s) (hpos : 0 < s.tout) (hword : s.tout < 65536)
    (htimes : ∀ y ∈ s.asleep, 0 < y.2) :
    ∃ k', k.rt_systick = some k' ∧ Refines k'.sys_switch s.tick := by
  have hput : Holds ({ k with state := update k.state s.run .READY }.rt_put_rdy_first s.run)
      { s with ready := s.run :: s.ready } := by
    have hqueues := h.queues.put_rdy_first h.run_task h.run_out.1
    rw [show s.queues none = s.ready from rfl, ← Scheduler.queues_ready] at hqueues
    exact { h with queues := ⟨hqueues.queues, hqueues.cb_type⟩ }
  obtain ⟨k₁, hrobin, hstate, hholds⟩ := hput.chk_robin hpos hword
  have hrotated : Tracks k₁.state { s with ready := s.rotate.1, slice := s.rotate.2 } := by
    have ht := h.tracks.update h.run_out .READY
    rw [hstate]
    refine ⟨fun y hy => ?_, ht.waiting, ht.asleep⟩
    rcases Scheduler.mem_rotate.mp hy with rfl | hy
    · exact update_self _ _ _
    · exact ht.ready y hy
  obtain ⟨k₂, hdec, hwoken, htracks⟩ := hholds.dec_dly hrotated htimes
  have hrun := Scheduler.mem_ready_wake (s := { s with
    ready := s.rotate.1
    slice := s.rotate.2
    asleep := (DeltaList.tick s.asleep).dropWhile fun y => y.2 = 0 }) (Scheduler.mem_rotate.mpr (.inl rfl)) s.due
  obtain ⟨x, l, hxl⟩ := List.exists_cons_of_ne_nil (List.ne_nil_of_mem hrun)
  obtain ⟨k', hget, hrefines⟩ := hwoken.resume htracks hxl k₂.run
  refine ⟨_, ?_, hrefines⟩
  rw [Kernel.rt_systick, bind_of_eq_some h.run, bind_of_eq_some hrobin]
  exact (bind_of_eq_some hdec _).trans (bind_of_eq_some hget _)

end

end Rtx
