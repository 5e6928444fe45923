-- SUMMARY: How long a task sleeps: a delay lasts its ticks, and a wait for a token lasts no longer than its timeout.
import SmartAlarm.Rtos.Soundness

/-!
# Sleeping

The time of a sleeping task is one less after every tick and the same after every
other call, whoever else goes to sleep or wakes. So it is ready with the tick that
its time says, unless it waited for a token and has got one before.
-/

namespace Rtx

open Function PriorityQueue

/-- A tick is a millisecond, and no time limit is longer than 65534 of them. -/
theorem rt_ms2tick_eq {millisec : Nat} (h : millisec < 4294967295) :
    rt_ms2tick millisec = min millisec 65534 := by
  by_cases hlarge : 4000000 < millisec
  · rw [rt_ms2tick, if_neg (by omega), if_neg (by omega), if_pos hlarge]
    omega
  · have hrounded : u32 (u32 (1000 * millisec) + 1000 + 4294967295) / 1000 = millisec := by
      have hsum : u32 (u32 (1000 * millisec) + 1000 + 4294967295) = 1000 * millisec + 999 := by
        rw [u32, u32, Nat.mod_eq_of_lt (by omega : 1000 * millisec < 4294967296)]
        omega
      rw [hsum]
      omega
    unfold rt_ms2tick u16
    rw [hrounded]
    dsimp only
    split_ifs <;> omega

/-- A task that is due runs after the tick, or is ready. -/
theorem Scheduler.ready_tick {s : Scheduler Ptr} {x : Ptr} (hs : s.Sound .os_idle_TCB) (h : (x, 1) ∈ s.asleep) :
    x = s.tick.run ∨ x ∈ s.tick.ready := by
  have hdue : x ∈ s.due :=
    List.mem_map.mpr ⟨(x, 0), hs.timely.tick.mem_takeWhile (List.mem_map_of_mem h) rfl, rfl⟩
  rw [tick]
  exact mem_resume (mem_ready_wake_of_mem hdue)

/-! ## Runs -/

section

variable {k : Kernel} {s : Scheduler Ptr} {x : Ptr} {t : Nat} {calls : List SysCall}

/-- A task is asleep for as many ticks as its time says, and waits as it did, if it waits
    for nothing or is given nothing. -/
theorem still_asleep {o : Option Kernel} (h : Serves o s) (hadm : kernel.Admits SysEnabled o calls)
    (hx : (x, t) ∈ s.asleep)
    (hnone : (∀ n, x ∉ s.waiting n) ∨ ∀ n, .acquired n x ∉ scheduler.trace s calls)
    (hticks : calls.count .systick < t) :
    (x, t - calls.count .systick) ∈ (scheduler.run s calls).asleep ∧
      ∀ n, x ∈ (scheduler.run s calls).waiting n ↔ x ∈ s.waiting n := by
  induction calls generalizing o s t with
  | nil => exact ⟨hx, fun _ => Iff.rfl⟩
  | cons call calls ih =>
    obtain ⟨hnext, -⟩ := h.step hadm.1
    obtain ⟨k, rfl, hrefines, hs⟩ := h
    have hrun : x ≠ s.run := by
      rintro rfl
      exact hrefines.run_out.2 (List.mem_map_of_mem hx)
    have hgiven (n : Nat) : .acquired n x ∉ scheduler.out s call := by
      intro hmem
      rcases hnone with hfree | hnone
      · exact (Scheduler.acquired_serve hmem).elim hrun (hfree n)
      · exact hnone n (List.mem_append_left _ hmem)
    have hwaiting (n : Nat) : x ∈ (scheduler.next s call).waiting n ↔ x ∈ s.waiting n := by
      refine ⟨fun hmem => (Scheduler.waiting_serve hmem).resolve_left hrun, fun hmem => ?_⟩
      refine (Scheduler.waiting_kept hmem ?_).resolve_right (hgiven n)
      rintro rfl
      rw [List.count_cons_self] at hticks
      exact Scheduler.not_due hrefines.delays.nodup hx (by omega)
    have hnone' : (∀ n, x ∉ (scheduler.next s call).waiting n) ∨
        ∀ n, .acquired n x ∉ scheduler.trace (scheduler.next s call) calls := by
      refine hnone.imp (fun hfree n => ?_) fun hnone n hmem => hnone n (List.mem_append_right _ hmem)
      rw [hwaiting]
      exact hfree n
    by_cases hcall : call = .systick
    · subst hcall
      rw [List.count_cons_self] at hticks ⊢
      obtain ⟨hone, hsame⟩ := ih hnext hadm.2 (Scheduler.asleep_tick hx (by omega)) hnone' (by omega)
      rw [Nat.sub_sub, Nat.add_comm 1] at hone
      exact ⟨hone, fun n => (hsame n).trans (hwaiting n)⟩
    · rw [List.count_cons_of_ne hcall] at hticks ⊢
      rcases Scheduler.asleep_serve hx hcall with hstill | ⟨n, hmem⟩
      · obtain ⟨hone, hsame⟩ := ih hnext hadm.2 hstill hnone' hticks
        exact ⟨hone, fun n => (hsame n).trans (hwaiting n)⟩
      · exact absurd hmem (hgiven n)

/-- The state of a task that sleeps and waits for nothing. -/
theorem Refines.wait_dly (h : Refines k s) (hx : (x, t) ∈ s.asleep) (hfree : ∀ n, x ∉ s.waiting n) :
    k.state x = .WAIT_DLY :=
  (h.tracks.asleep x (List.mem_map_of_mem hx)).resolve_right fun ⟨n, hn⟩ => hfree n hn

/-- The state of a task that runs or is ready. -/
theorem Refines.awake (h : Refines k s) (hx : x = s.run ∨ x ∈ s.ready) :
    k.state x = .RUNNING ∨ k.state x = .READY := by
  rcases hx with rfl | hx
  · exact .inl h.running
  · exact .inr (h.tracks.ready x hx)

/-- With the last of its ticks a task is awake. -/
theorem Serves.awake {o : Option Kernel} (h : Serves o s) {before : List SysCall}
    (hadm : kernel.Admits SysEnabled o (before ++ [.systick])) (hx : (x, t) ∈ s.asleep)
    (hnone : (∀ n, x ∉ s.waiting n) ∨ ∀ n, .acquired n x ∉ scheduler.trace s (before ++ [.systick]))
    (hticks : (before ++ [SysCall.systick]).count .systick = t)
    (hrun : kernel.run o (before ++ [.systick]) = some k) :
    k.state x = .RUNNING ∨ k.state x = .READY := by
  rw [List.count_append, List.count_singleton_self] at hticks
  obtain ⟨hbefore, -⟩ := (kernel.admits_append _ _ _).mp hadm
  have hnone' : (∀ n, x ∉ s.waiting n) ∨ ∀ n, .acquired n x ∉ scheduler.trace s before := by
    refine hnone.imp_right fun hnone n hmem => hnone n ?_
    rw [Machine.trace_append]
    exact List.mem_append_left _ hmem
  obtain ⟨hlast, -⟩ := still_asleep h hbefore hx hnone' (by omega)
  obtain ⟨-, -, -, hs⟩ := h.run hbefore
  obtain ⟨k', hk', hrefines, -⟩ := h.run hadm
  have hone : t - before.count .systick = 1 := by omega
  rw [hone] at hlast
  rw [Machine.run_concat] at hrefines
  obtain rfl : k' = k := Option.some.inj (hk'.symm.trans hrun)
  exact hrefines.awake (Scheduler.ready_tick hs hlast)

/-- The running task is asleep after its call, for as many ticks as it has called for. -/
theorem Refines.delay_asleep (h : Refines k s) {d : Nat} (hpos : 0 < d) (hd : d < 65535) :
    (s.run, d) ∈ (s.delay d).asleep ∧ ∀ n, s.run ∉ (s.delay d).waiting n := by
  rw [Scheduler.delay, if_neg (Nat.ne_of_gt hpos), Scheduler.asleep_resume, Scheduler.waiting_resume,
    Scheduler.sleep, if_pos hd]
  exact ⟨DeltaList.mem_insert.mpr (.inl rfl), fun n => h.run_out.1 (some n)⟩

/-- A task that has called for a delay of `millisec` gets it: it sleeps until as many ticks
    have come, at most 65534, and is awake with the last of them, whatever the other
    tasks call. -/
theorem delay_lasts (os_maxtaskrun : Nat) {count : Nat → Nat} (hcount : ∀ n, count n ≤ 65535)
    {calls later : List SysCall} {millisec : Nat}
    (hadm : kernel.Admits SysEnabled (some (.boot os_maxtaskrun count))
      (calls ++ .svcDelay millisec :: later))
    (hpos : 0 < millisec) (hmillisec : millisec < 4294967295)
    (hrun : (kernel.run (some (.boot os_maxtaskrun count)) calls).bind Kernel.run = some x) :
    ∃ k', kernel.run (some (.boot os_maxtaskrun count)) (calls ++ .svcDelay millisec :: later) =
        some k' ∧
      (later.count .systick < min millisec 65534 → k'.state x = .WAIT_DLY) ∧
      ∀ before, later = before ++ [.systick] → later.count .systick = min millisec 65534 →
        k'.state x = .RUNNING ∨ k'.state x = .READY := by
  obtain ⟨hbefore, hcall, hlater⟩ := (kernel.admits_append _ _ _).mp hadm
  have hserves := (serves_boot os_maxtaskrun hcount).run hbefore
  obtain ⟨hnext, -⟩ := hserves.step hcall
  obtain ⟨k, hk, hrefines, hs⟩ := hserves
  have hx : (scheduler.run (.init count) calls).run = x := by
    rw [hk] at hrun
    exact Option.some.inj (hrefines.run.symm.trans hrun)
  obtain ⟨hasleep, hfree⟩ := hrefines.delay_asleep (d := min millisec 65534) (by omega) (by omega)
  rw [hx] at hasleep hfree
  have hdelay : scheduler.next (scheduler.run (.init count) calls) (.svcDelay millisec) =
      (scheduler.run (.init count) calls).delay (min millisec 65534) := by
    rw [← rt_ms2tick_eq hmillisec]
    rfl
  rw [hdelay] at hnext
  obtain ⟨k', hk', hrefines', -⟩ := hnext.run hlater
  refine ⟨k', ?_, fun hearly => ?_, ?_⟩
  · rw [Machine.run_append, Machine.run_cons, hk']
  · obtain ⟨hstill, hwaiting⟩ := still_asleep hnext hlater hasleep (.inl hfree) hearly
    exact hrefines'.wait_dly hstill fun n hmem => hfree n ((hwaiting n).mp hmem)
  · rintro before rfl hticks
    exact hnext.awake hlater hasleep (.inl hfree) hticks hk'

theorem delay_of_two_ticks :
    ∃ k', kernel.run (some (.boot 1 fun _ => 0)) ([.svcThreadCreate 0 3] ++ .svcDelay 2 :: [.systick, .systick]) =
        some k' ∧ (k'.state (.tcb 0) = .RUNNING ∨ k'.state (.tcb 0) = .READY) := by
  have hadm : kernel.Admits SysEnabled (some (.boot 1 fun _ => 0))
      ([.svcThreadCreate 0 3] ++ .svcDelay 2 :: [.systick, .systick]) := by decide
  obtain ⟨k', hk', -, hawake⟩ := delay_lasts (x := .tcb 0) 1 (fun _ => Nat.zero_le _) hadm
    (by decide) (by decide) (by decide)
  exact ⟨k', hk', hawake [.systick] rfl rfl⟩

/-- The running task is asleep after its call and waits, if there was no token for it. -/
theorem Scheduler.wait_asleep {n d : Nat} (hnone : (s.wait n d).2 = false)
    (hpos : 0 < d) (hd : d < 65535) :
    (s.run, d) ∈ (s.wait n d).1.asleep ∧ s.run ∈ (s.wait n d).1.waiting n := by
  rw [Scheduler.wait] at hnone ⊢
  split at hnone
  · cases hnone
  case isFalse hempty =>
    rw [if_neg hempty, if_neg (Nat.ne_of_gt hpos), Scheduler.asleep_resume, Scheduler.waiting_resume,
      Scheduler.waiting_sleep, Scheduler.sleep, if_pos hd]
    exact ⟨DeltaList.mem_insert.mpr (.inl rfl), Scheduler.mem_waiting_put.mpr (.inl ⟨rfl, rfl⟩)⟩

theorem scheduler_out_wait (s : Scheduler Ptr) (n millisec : Nat) :
    scheduler.out s (.svcSemaphoreWait n millisec) =
      if (s.wait n (rt_ms2tick millisec)).2 then [.acquired n s.run] else [] := rfl

/-- A task that waits for a token for `millisec`, and is given none, waits until as many
    ticks have come, at most 65534, and is awake with the last of them. -/
theorem wait_times_out (os_maxtaskrun : Nat) {count : Nat → Nat} (hcount : ∀ n, count n ≤ 65535)
    {calls later : List SysCall} {n millisec : Nat}
    (hadm : kernel.Admits SysEnabled (some (.boot os_maxtaskrun count))
      (calls ++ .svcSemaphoreWait n millisec :: later))
    (hpos : 0 < millisec) (hmillisec : millisec < 4294967295)
    (hrun : (kernel.run (some (.boot os_maxtaskrun count)) calls).bind Kernel.run = some x)
    (hnone : ∀ m, .acquired m x ∉ kernel.trace (kernel.run (some (.boot os_maxtaskrun count)) calls)
      (.svcSemaphoreWait n millisec :: later)) :
    ∃ k', kernel.run (some (.boot os_maxtaskrun count)) (calls ++ .svcSemaphoreWait n millisec :: later) =
        some k' ∧
      (later.count .systick < min millisec 65534 → k'.state x = .WAIT_SEM) ∧
      ∀ before, later = before ++ [.systick] → later.count .systick = min millisec 65534 →
        k'.state x = .RUNNING ∨ k'.state x = .READY := by
  obtain ⟨hbefore, hcall, hlater⟩ := (kernel.admits_append _ _ _).mp hadm
  have hserves := (serves_boot os_maxtaskrun hcount).run hbefore
  obtain ⟨hnext, hout⟩ := hserves.step hcall
  have htrace := hnext.trace hlater
  obtain ⟨k, hk, hrefines, hs⟩ := hserves
  have hx : (scheduler.run (.init count) calls).run = x := by
    rw [hk] at hrun
    exact Option.some.inj (hrefines.run.symm.trans hrun)
  have htick := rt_ms2tick_eq hmillisec
  have hempty : ((scheduler.run (.init count) calls).wait n (min millisec 65534)).2 = false := by
    refine Bool.eq_false_iff.mpr fun htaken => hnone n (List.mem_append_left _ ?_)
    rw [hout, scheduler_out_wait, htick, if_pos htaken, hx]
    exact List.mem_singleton_self _
  obtain ⟨hasleep, hwaiting⟩ := Scheduler.wait_asleep hempty (by omega) (by omega)
  have hwait : scheduler.next (scheduler.run (.init count) calls) (.svcSemaphoreWait n millisec) =
      ((scheduler.run (.init count) calls).wait n (min millisec 65534)).1 := by
    rw [← htick]
    rfl
  rw [hx] at hasleep hwaiting
  rw [hwait] at hnext htrace
  have hnot : ∀ m, .acquired m x ∉ scheduler.trace
      ((scheduler.run (.init count) calls).wait n (min millisec 65534)).1 later :=
    fun m hmem => hnone m (List.mem_append_right _ (htrace ▸ hmem))
  obtain ⟨k', hk', hrefines', -⟩ := hnext.run hlater
  refine ⟨k', ?_, fun hearly => ?_, ?_⟩
  · rw [Machine.run_append, Machine.run_cons, hk']
  · obtain ⟨-, hsame⟩ := still_asleep hnext hlater hasleep (.inr hnot) hearly
    exact hrefines'.tracks.waiting n x ((hsame n).mpr hwaiting)
  · rintro before rfl hticks
    exact hnext.awake hlater hasleep (.inr hnot) hticks hk'

theorem wait_of_two_ticks :
    ∃ k', kernel.run (some (.boot 1 fun _ => 0))
        ([.svcThreadCreate 0 3] ++ .svcSemaphoreWait 0 2 :: [.systick, .systick]) = some k' ∧
      (k'.state (.tcb 0) = .RUNNING ∨ k'.state (.tcb 0) = .READY) := by
  have hadm : kernel.Admits SysEnabled (some (.boot 1 fun _ => 0))
      ([.svcThreadCreate 0 3] ++ .svcSemaphoreWait 0 2 :: [.systick, .systick]) := by decide
  have hsilent : kernel.trace (kernel.run (some (.boot 1 fun _ => 0)) [.svcThreadCreate 0 3])
      [.svcSemaphoreWait 0 2, .systick, .systick] = [] := by decide
  obtain ⟨k', hk', -, hawake⟩ := wait_times_out (x := .tcb 0) 1 (fun _ => Nat.zero_le _) hadm
    (by decide) (by decide) (by decide) fun m hmem => by
      rw [hsilent] at hmem
      cases hmem
  exact ⟨k', hk', hawake [.systick] rfl rfl⟩

end

end Rtx
