-- SUMMARY: What holds between any two calls: queues in order, the highest task running, and the idle task always there.
import SmartAlarm.Rtos.Calls
import SmartAlarm.Rtos.Refinement

/-!
# Soundness

The calls that block take the first task of the ready list without looking
whether there is one. That there is one is the doing of the idle task, which has
a priority of its own below all others and never waits.
-/

namespace Rtx

open Function PriorityQueue

namespace Scheduler

section

variable {α : Type*} {idle x y : α} {s : Scheduler α} {l : List α} {d n p : Nat}

/-- The tasks that are anywhere. -/
def Known (s : Scheduler α) (x : α) : Prop :=
  x = s.run ∨ x ∈ s.ready ∨ (∃ n, x ∈ s.waiting n) ∨ x ∈ s.asleep.map Prod.fst

/-- All queues are in order, and nobody waits for a token that is there. -/
structure Sorted (idle : α) (s : Scheduler α) : Prop where
  ready : Ordered s.prio s.ready
  waiting : ∀ n, Ordered s.prio (s.waiting n)
  idle_prio : s.prio idle = 0
  above : ∀ x, s.Known x → x ≠ idle → 0 < s.prio x
  times : ∀ y ∈ s.asleep, 0 < y.2
  timely : DeltaList.Timely s.asleep
  kept : ∀ n, s.tokens n ≠ 0 → s.waiting n = []
  limit : ∀ n, s.tokens n ≤ 65535
  tout : 0 < s.tout ∧ s.tout < 65536
  slice : ∀ y ∈ s.slice, y.2 < s.tout

/-- Between two calls, the running task is the highest. -/
structure Sound (idle : α) (s : Scheduler α) : Prop extends Sorted idle s where
  highest : ∀ x ∈ s.ready, s.prio x ≤ s.prio s.run
  idle_mem : idle = s.run ∨ idle ∈ s.ready

theorem Sound.ready_ne_nil (h : s.Sound idle) (hrun : s.run ≠ idle) : s.ready ≠ [] :=
  List.ne_nil_of_mem (h.idle_mem.resolve_left hrun.symm)

/-- The first task of queues in order is the highest. -/
theorem Sorted.resume (h : s.Sorted idle) (hidle : idle ∈ s.ready) : s.resume.Sound idle := by
  obtain ⟨x, l, hready⟩ := List.exists_cons_of_ne_nil (List.ne_nil_of_mem hidle)
  have hresume : s.resume = { s with run := x, ready := l } := by rw [Scheduler.resume, hready]
  obtain ⟨hhighest, hordered⟩ := ordered_cons.mp (hready ▸ h.ready)
  rw [hresume]
  refine { h with
    ready := hordered
    above := fun y hy => h.above y ?_
    highest := hhighest
    idle_mem := List.mem_cons.mp (hready ▸ hidle) }
  rcases hy with rfl | hy | hy
  · exact .inr (.inl (hready ▸ List.mem_cons_self))
  · exact .inr (.inl (hready ▸ List.mem_cons_of_mem x hy))
  · exact .inr (.inr hy)

theorem Sound.dispatch (h : s.Sound idle) (hx : x ≠ idle → 0 < s.prio x) :
    (s.dispatch x).Sound idle := by
  rw [Scheduler.dispatch]
  split
  case isTrue hlt =>
    refine { h with
      ready := ordered_cons.mpr ⟨h.highest, h.ready⟩
      above := fun y hy hne => ?_
      highest := fun y hy => ?_
      idle_mem := .inr (List.mem_cons.mpr h.idle_mem) }
    · rcases hy with rfl | hy | hy
      · exact hx hne
      · rcases List.mem_cons.mp hy with rfl | hy
        · exact h.above _ (.inl rfl) hne
        · exact h.above y (.inr (.inl hy)) hne
      · exact h.above y (.inr (.inr hy)) hne
    · rcases List.mem_cons.mp hy with rfl | hy
      · exact hlt.le
      · exact (h.highest y hy).trans hlt.le
  case isFalse hle =>
    refine { h with
      ready := h.ready.enqueue x
      above := fun y hy hne => ?_
      highest := fun y hy => ?_
      idle_mem := h.idle_mem.imp_right fun hmem => mem_enqueue.mpr (.inr hmem) }
    · rcases hy with rfl | hy | hy
      · exact h.above _ (.inl rfl) hne
      · rcases mem_enqueue.mp hy with rfl | hy
        · exact hx hne
        · exact h.above y (.inr (.inl hy)) hne
      · exact h.above y (.inr (.inr hy)) hne
    · rcases mem_enqueue.mp hy with rfl | hy
      · exact not_lt.mp hle
      · exact h.highest y hy

theorem Sorted.sleep (h : s.Sorted idle) (hd : 0 < d) : (s.sleep d).Sorted idle := by
  rw [Scheduler.sleep]
  split
  · refine { h with
      above := fun y hy => h.above y ?_
      times := fun y hy => ?_
      timely := h.timely.insert _ }
    · rcases hy with hy | hy | hy | hy
      · exact .inl hy
      · exact .inr (.inl hy)
      · exact .inr (.inr (.inl hy))
      · obtain ⟨z, hz, rfl⟩ := List.mem_map.mp hy
        rcases DeltaList.mem_insert.mp hz with rfl | hz
        · exact .inl rfl
        · exact .inr (.inr (.inr (List.mem_map_of_mem hz)))
    · rcases DeltaList.mem_insert.mp hy with rfl | hy
      · exact hd
      · exact h.times y hy
  · exact h

theorem Sound.resume (h : s.Sound idle) (hrun : s.run ≠ idle) : s.resume.Sound idle :=
  h.toSorted.resume (h.idle_mem.resolve_left hrun.symm)

theorem Sound.delay (h : s.Sound idle) (hrun : s.run ≠ idle) (d : Nat) : (s.delay d).Sound idle := by
  rw [Scheduler.delay]
  split
  · exact h
  case isFalse hd =>
    refine (h.sleep (Nat.pos_of_ne_zero hd)).resume ?_
    rw [ready_sleep]
    exact h.idle_mem.resolve_left hrun.symm

theorem Sound.pass (h : s.Sound idle) : s.pass.Sound idle := by
  rw [Scheduler.pass]
  split
  · exact h
  case h_2 x l hready =>
    obtain ⟨hhighest, hordered⟩ := ordered_cons.mp (hready ▸ h.ready)
    split
    case isTrue hsame =>
      refine { h with
        ready := hordered.enqueue s.run
        above := fun y hy => h.above y ?_
        highest := fun y hy => ?_
        idle_mem := ?_ }
      · rcases hy with rfl | hy | hy
        · exact .inr (.inl (hready ▸ List.mem_cons_self))
        · rcases mem_enqueue.mp hy with rfl | hy
          · exact .inl rfl
          · exact .inr (.inl (hready ▸ List.mem_cons_of_mem x hy))
        · exact .inr (.inr hy)
      · rcases mem_enqueue.mp hy with rfl | hy
        · exact hsame.ge
        · exact hhighest y hy
      · rcases h.idle_mem with rfl | hmem
        · exact .inr (mem_enqueue.mpr (.inl rfl))
        · rcases List.mem_cons.mp (hready ▸ hmem) with rfl | hmem
          · exact .inl rfl
          · exact .inr (mem_enqueue.mpr (.inr hmem))
    · exact h

theorem Sound.wait (h : s.Sound idle) (hrun : s.run ≠ idle) (n d : Nat) :
    (s.wait n d).1.Sound idle := by
  rw [Scheduler.wait]
  split
  case isTrue hkept =>
    refine { h with kept := fun m hm => h.kept m ?_, limit := fun m => ?_ }
    · by_cases heq : m = n
      · rwa [heq]
      · simpa [heq] using hm
    · have hlimit := h.limit m
      by_cases heq : m = n
      · subst heq
        simp only [update_self]
        omega
      · simpa [heq] using hlimit
  case isFalse hempty =>
    split
    · exact h
    case isFalse hd =>
      have hwaiting : ({ s with waiting := update s.waiting n (enqueue s.prio s.run (s.waiting n)) } :
          Scheduler α).Sorted idle := by
        refine { h with waiting := fun m => ?_, above := fun y hy => h.above y ?_, kept := fun m hm => ?_ }
        · by_cases heq : m = n
          · subst heq
            simpa using (h.waiting m).enqueue s.run
          · simpa [heq] using h.waiting m
        · rcases hy with hy | hy | ⟨m, hy⟩ | hy
          · exact .inl hy
          · exact .inr (.inl hy)
          · rcases mem_waiting_put.mp hy with ⟨-, rfl⟩ | hy
            · exact .inl rfl
            · exact .inr (.inr (.inl ⟨m, hy⟩))
          · exact .inr (.inr (.inr hy))
        · have hne : m ≠ n := fun heq => hempty (heq ▸ hm)
          simpa [hne] using h.kept m hm
      refine (hwaiting.sleep (Nat.pos_of_ne_zero hd)).resume ?_
      rw [ready_sleep]
      exact h.idle_mem.resolve_left hrun.symm

theorem due_subset (hx : x ∈ s.due) : x ∈ s.asleep.map Prod.fst := by
  obtain ⟨y, hy, rfl⟩ := List.mem_map.mp hx
  rw [← DeltaList.map_fst_tick]
  exact List.mem_map_of_mem (List.takeWhile_sublist _ |>.subset hy)

variable [DecidableEq α]

theorem Sound.create (h : s.Sound idle) (hnew : ¬ s.Known x) (hx : x ≠ idle) (hp : 0 < p) :
    (s.create x p).Sound idle := by
  have hold (y : α) (hy : s.Known y) : update s.prio x p y = s.prio y := by
    refine update_of_ne ?_ _ _
    rintro rfl
    exact hnew hy
  have hsame : ({ s with prio := update s.prio x p } : Scheduler α).Sound idle := by
    refine { h with
      ready := h.ready.congr fun y hy => hold y (.inr (.inl hy))
      waiting := fun n => (h.waiting n).congr fun y hy => hold y (.inr (.inr (.inl ⟨n, hy⟩)))
      idle_prio := (update_of_ne hx.symm _ _).trans h.idle_prio
      above := fun y hy hne => ?_
      highest := fun y hy => ?_ }
    · dsimp only
      rw [hold y hy]
      exact h.above y hy hne
    · dsimp only
      rw [hold y (.inr (.inl hy)), hold s.run (.inl rfl)]
      exact h.highest y hy
  refine hsame.dispatch fun _ => ?_
  dsimp only
  rwa [update_self]

theorem Sound.signal (h : s.Sound idle) (hlimit : s.tokens n < 65535) :
    (s.signal n).1.Sound idle := by
  rw [Scheduler.signal]
  split
  case h_1 hnobody =>
    refine { h with kept := fun m hm => ?_, limit := fun m => ?_ }
    · by_cases heq : m = n
      · rwa [heq]
      · exact h.kept m (by simpa [heq] using hm)
    · have hold := h.limit m
      by_cases heq : m = n
      · subst heq
        simp only [update_self]
        omega
      · simpa [heq] using hold
  case h_2 x l hwaiting =>
    have hsub (m : Nat) : (update s.waiting n l m).Sublist (s.waiting m) := by
      by_cases heq : m = n
      · subst heq
        rw [update_self, hwaiting]
        exact List.sublist_cons_self x l
      · rw [update_of_ne heq]
    have hx : s.Known x := .inr (.inr (.inl ⟨n, hwaiting ▸ List.mem_cons_self⟩))
    refine Sound.dispatch (s := { s with
      waiting := update s.waiting n l
      asleep := s.asleep.filter fun y => y.1 ≠ x }) ?_ (h.above x hx)
    refine { h with
      waiting := fun m => (h.waiting m).sublist (hsub m)
      above := fun y hy => h.above y ?_
      times := fun y hy => h.times y (List.mem_filter.mp hy).1
      timely := h.timely.sublist List.filter_sublist
      kept := fun m hm => List.eq_nil_of_sublist_nil (h.kept m hm ▸ hsub m) }
    rcases hy with hy | hy | ⟨m, hy⟩ | hy
    · exact .inl hy
    · exact .inr (.inl hy)
    · exact .inr (.inr (.inl ⟨m, (hsub m).subset hy⟩))
    · obtain ⟨z, hz, rfl⟩ := List.mem_map.mp hy
      exact .inr (.inr (.inr (List.mem_map_of_mem (List.mem_filter.mp hz).1)))

theorem Sorted.left_lt (h : s.Sorted idle) : s.left < s.tout := by
  have htout := h.tout.1
  rw [left]
  split
  · omega
  case h_2 y n hslice =>
    split
    · exact h.slice (y, n) hslice
    · omega

theorem Sound.ordered_rotate (h : s.Sound idle) : Ordered s.prio s.rotate.1 := by
  rw [rotate]
  split
  · exact h.ready.enqueue s.run
  · exact ordered_cons.mpr ⟨h.highest, h.ready⟩

theorem Sorted.wake (h : s.Sorted idle) (hx : x ≠ idle → 0 < s.prio x) : (s.wake x).Sorted idle := by
  refine { h with
    ready := h.ready.enqueue x
    waiting := fun n => (h.waiting n).sublist List.filter_sublist
    above := fun y hy hne => ?_
    kept := fun n hn => ?_ }
  · rcases hy with hy | hy | ⟨n, hy⟩ | hy
    · exact h.above y (.inl hy) hne
    · rcases mem_enqueue.mp hy with rfl | hy
      · exact hx hne
      · exact h.above y (.inr (.inl hy)) hne
    · exact h.above y (.inr (.inr (.inl ⟨n, (List.mem_filter.mp hy).1⟩))) hne
    · exact h.above y (.inr (.inr (.inr hy))) hne
  · dsimp only [Scheduler.wake]
    rw [h.kept n hn, List.filter_nil]

theorem Sorted.foldl_wake (h : s.Sorted idle) (hl : ∀ x ∈ l, x ≠ idle → 0 < s.prio x) :
    (l.foldl Scheduler.wake s).Sorted idle := by
  induction l generalizing s with
  | nil => exact h
  | cons x l ih =>
    obtain ⟨hx, hl⟩ := List.forall_mem_cons.mp hl
    exact ih (h.wake hx) hl

theorem Sound.tick (h : s.Sound idle) : s.tick.Sound idle := by
  have htimely := h.timely.tick
  have hrotated : ({ s with
      ready := s.rotate.1
      slice := s.rotate.2
      asleep := (DeltaList.tick s.asleep).dropWhile fun y => y.2 = 0 } : Scheduler α).Sorted idle := by
    refine { h with
      ready := ?_
      above := fun y hy => h.above y ?_
      times := fun y hy => htimely.pos_of_mem_dropWhile hy
      timely := htimely.sublist (List.dropWhile_sublist _)
      slice := fun y hy => ?_ }
    · exact h.ordered_rotate
    · rcases hy with hy | hy | hy | hy
      · exact .inl hy
      · exact (mem_rotate.mp hy).imp_right .inl
      · exact .inr (.inr (.inl hy))
      · refine .inr (.inr (.inr ?_))
        rw [← DeltaList.map_fst_tick]
        exact (List.dropWhile_sublist _ |>.map _).subset hy
    · have hleft := h.left_lt
      dsimp only at hy
      rw [rotate] at hy
      split at hy
      · cases hy
      · obtain rfl : (s.run, s.left - 1) = y := Option.some.inj hy
        dsimp only
        omega
  refine (hrotated.foldl_wake fun x hx => h.above x (.inr (.inr (.inr (due_subset hx))))).resume ?_
  exact mem_ready_wake (mem_rotate.mpr h.idle_mem) s.due

end

end Scheduler

/-! ## Every call -/

open Scheduler

section

variable {k : Kernel} {s : Scheduler Ptr} {call : SysCall}

/-- While any other task runs, the idle task is ready. -/
theorem Refines.ready_ne_nil (h : Refines k s) (hs : s.Sound .os_idle_TCB) (hrun : k.run ≠ some .os_idle_TCB) :
    s.ready ≠ [] := by
  refine hs.ready_ne_nil fun heq => hrun ?_
  rw [h.run, heq]

/-- A call that the kernel can get does to its memory what it does to the scheduler. -/
theorem Refines.serve (h : Refines k s) (hs : s.Sound .os_idle_TCB) (hok : SysEnabled (some k) call) :
    ∃ k', k.serve call = some (k', (s.serve call).2) ∧ Refines k'.sys_switch (s.serve call).1 := by
  have hready := h.ready_ne_nil hs
  cases call with
  | systick =>
    obtain ⟨k', heq, hrefines⟩ := h.systick hs.tout.1 hs.tout.2 hs.times
    exact ⟨k', bind_of_eq_some heq _, hrefines⟩
  | svcThreadCreate n prio_stksz =>
    obtain ⟨k', heq, hrefines⟩ := h.tsk_create hok.1 hok.2 prio_stksz
    exact ⟨k', bind_of_eq_some heq _, hrefines⟩
  | svcThreadTerminate =>
    obtain ⟨k', heq, hrefines⟩ := h.tsk_delete (hready hok)
    exact ⟨k', bind_of_eq_some heq _, hrefines⟩
  | svcDelay millisec =>
    rw [Kernel.serve]
    by_cases hzero : millisec = 0
    · subst hzero
      exact ⟨k, rfl, h.sys_switch⟩
    · obtain ⟨k', heq, hrefines⟩ := h.dly_wait (d := rt_ms2tick millisec) (hready hok)
      rw [if_neg hzero]
      exact ⟨k', bind_of_eq_some heq _, hrefines⟩
  | svcThreadYield =>
    obtain ⟨k', heq, hrefines⟩ := h.tsk_pass (hready hok)
    exact ⟨k', bind_of_eq_some heq _, hrefines⟩
  | svcSemaphoreWait n millisec =>
    obtain ⟨k', heq, hrefines⟩ := h.sem_wait (hready hok) n (rt_ms2tick millisec)
    refine ⟨k', ?_, hrefines⟩
    rw [Kernel.serve, bind_of_eq_some h.run]
    refine (bind_of_eq_some heq _).trans ?_
    dsimp only [Scheduler.serve]
    cases (s.wait n (rt_ms2tick millisec)).2 <;> rfl
  | svcSemaphoreRelease n =>
    rw [Kernel.serve, Scheduler.serve, h.tokens]
    by_cases hfull : s.tokens n = 65535
    · rw [if_pos hfull, if_pos hfull]
      exact ⟨k, rfl, h.sys_switch⟩
    · have hlimit := hs.limit n
      obtain ⟨k', heq, hrefines⟩ := h.sem_send (n := n) (by omega)
      rw [if_neg hfull, if_neg hfull]
      exact ⟨k', bind_of_eq_some heq _, hrefines⟩

theorem Refines.known (h : Refines k s) {x : Ptr} (hx : k.state x = .INACTIVE) : ¬ s.Known x := by
  obtain ⟨hqueues, hasleep⟩ := h.tracks.out (.inr hx)
  rintro (rfl | hmem | ⟨n, hmem⟩ | hmem)
  · cases hx.symm.trans h.running
  · exact hqueues none hmem
  · exact hqueues (some n) hmem
  · exact hasleep hmem

/-- A task keeps its priority. -/
theorem Refines.prio_kept (h : Refines k s) (hok : SysEnabled (some k) call) {x : Ptr} (hx : s.Known x) :
    (s.serve call).1.prio x = s.prio x := by
  refine prio_serve s ?_
  rintro n prio_stksz rfl rfl
  exact h.known hok.2 hx

theorem Sound.serve (hs : s.Sound .os_idle_TCB) (h : Refines k s) (hok : SysEnabled (some k) call) :
    (s.serve call).1.Sound .os_idle_TCB := by
  have hrun : k.run ≠ some .os_idle_TCB → s.run ≠ .os_idle_TCB := fun hrun heq => hrun (heq ▸ h.run)
  cases call with
  | systick => exact hs.tick
  | svcThreadCreate n prio_stksz => exact hs.create (h.known hok.2) nofun (by omega)
  | svcThreadTerminate => exact hs.resume (hrun hok)
  | svcDelay millisec => exact hs.delay (hrun hok) _
  | svcThreadYield => exact hs.pass
  | svcSemaphoreWait n millisec => exact hs.wait (hrun hok) _ _
  | svcSemaphoreRelease n =>
    have hlimit := hs.limit n
    rw [Scheduler.serve]
    split
    · exact hs
    · exact hs.signal (by omega)

/-- The kernel is there, and stands for a sound scheduler. -/
def Serves (k : Option Kernel) (s : Scheduler Ptr) : Prop :=
  ∃ k', k = some k' ∧ Refines k' s ∧ s.Sound .os_idle_TCB

theorem Serves.step {k : Option Kernel} (h : Serves k s) (hok : SysEnabled k call) :
    Serves (kernel.next k call) (scheduler.next s call) ∧ kernel.out k call = scheduler.out s call := by
  obtain ⟨k, rfl, hrefines, hs⟩ := h
  obtain ⟨k', heq, hrefines'⟩ := hrefines.serve hs hok
  have hstep : kernel.step (some k) call = (some k'.sys_switch, (s.serve call).2) := by
    rw [kernel]
    dsimp only
    rw [heq]
  refine ⟨⟨k'.sys_switch, ?_, hrefines', Sound.serve hs hrefines hok⟩, ?_⟩
  · rw [Machine.next, hstep]
  · rw [Machine.out, hstep]
    rfl

theorem Serves.run {o : Option Kernel} {calls : List SysCall} (h : Serves o s)
    (hadm : kernel.Admits SysEnabled o calls) : Serves (kernel.run o calls) (scheduler.run s calls) :=
  (kernel.simulate scheduler hadm h fun _ _ _ h hok => h.step hok).1

theorem Serves.trace {o : Option Kernel} {calls : List SysCall} (h : Serves o s)
    (hadm : kernel.Admits SysEnabled o calls) : kernel.trace o calls = scheduler.trace s calls :=
  (kernel.simulate scheduler hadm h fun _ _ _ h hok => h.step hok).2

theorem serves_boot (os_maxtaskrun : Nat) {count : Nat → Nat} (hcount : ∀ n, count n ≤ 65535) :
    Serves (some (.boot os_maxtaskrun count)) (.init count) := by
  refine ⟨_, rfl, ?_, ?_⟩
  · have hempty : (Scheduler.init count).queues = fun _ => [] := by
      funext i
      cases i <;> rfl
    have hqueues : HoldsQueues (.boot os_maxtaskrun count) (Scheduler.init count).queues := by
      rw [hempty]
      exact ⟨⟨fun _ => rfl, fun _ => trivial, fun _ _ _ => rfl, fun _ => List.nodup_nil, nofun, nofun⟩,
        fun i => by cases i <;> rfl⟩
    have hdelays : HoldsDelays (.boot os_maxtaskrun count) [] :=
      ⟨rfl, trivial, rfl, fun _ _ _ => rfl, List.nodup_nil, nofun, nofun⟩
    exact ⟨⟨hqueues, hdelays, rfl, fun _ => rfl, rfl, rfl, rfl, List.mem_cons_self⟩, ⟨nofun, nofun, nofun⟩, rfl, rfl⟩
  · refine ⟨⟨List.Pairwise.nil, fun _ => List.Pairwise.nil, rfl, fun x hx hne => ?_, nofun, List.Pairwise.nil,
      fun _ _ => rfl, hcount, (by decide : 0 < 5 ∧ 5 < 65536), nofun⟩, nofun, .inl rfl⟩
    rcases hx with rfl | hx | ⟨n, hx⟩ | hx
    · exact absurd rfl hne
    all_goals cases hx

end

end Rtx
