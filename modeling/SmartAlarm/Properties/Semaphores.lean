-- SUMMARY: Semaphores: tokens are conserved, nobody waits while there is one, and nobody is overtaken.
import SmartAlarm.Rtos.Soundness

/-!
# Semaphores

The tokens that tasks have got and those that are left are the ones that were
there and those that were given back. A task that waits keeps its place: only
those before it, and newcomers of a higher priority, can be served first.
-/

namespace Rtx

open Function PriorityQueue Scheduler

section

variable {k : Kernel} {s : Scheduler Ptr} {x y : Ptr} {n : Nat} {call : SysCall} {l r : List Ptr}
  {calls : List SysCall}

/-! ## Tokens -/

/-- In every run, the tokens that were got and the tokens that are left add up to the
    tokens that were there at first and those given back; and a token that is left has
    no task waiting for it. -/
theorem tokens_conserved (os_maxtaskrun : Nat) {count : Nat → Nat} (hcount : ∀ n, count n ≤ 65535)
    (hadm : kernel.Admits SysEnabled (some (.boot os_maxtaskrun count)) calls) :
    ∃ k, kernel.run (some (.boot os_maxtaskrun count)) calls = some k ∧
      ∀ n, (kernel.trace (some (.boot os_maxtaskrun count)) calls).countP (SysEvent.acquires n) + k.tokens (.scb n) =
          count n + (kernel.trace (some (.boot os_maxtaskrun count)) calls).countP (SysEvent.releases n) ∧
        (k.tokens (.scb n) ≠ 0 → k.p_lnk (.scb n) = none) := by
  have hserves := serves_boot os_maxtaskrun hcount
  have htrace := hserves.trace hadm
  obtain ⟨k, hk, hrefines, hs⟩ := hserves.run hadm
  refine ⟨k, hk, fun n => ⟨?_, fun hkept => ?_⟩⟩
  · rw [htrace, hrefines.tokens]
    refine scheduler.history (J := fun _ events s => events.countP (SysEvent.acquires n) + s.tokens n =
      count n + events.countP (SysEvent.releases n)) (by simp [Scheduler.init]) (fun _ events s call h => ?_) calls
    have hcall : (scheduler.out s call).countP (SysEvent.acquires n) + (scheduler.next s call).tokens n =
        s.tokens n + (scheduler.out s call).countP (SysEvent.releases n) := tokens_serve s call n
    rw [List.countP_append, List.countP_append]
    omega
  · have hnobody := hs.kept n (hrefines.tokens n ▸ hkept)
    have hchain := hrefines.queues.queues.chain (some n)
    rw [show (scheduler.run (.init count) calls).queues (some n) = [] from hnobody] at hchain
    exact hchain

theorem tokens_conserved_handover :
    ∃ k, kernel.run (some (.boot 2 fun _ => 1)) [.svcThreadCreate 0 3, .svcSemaphoreWait 0 7] = some k ∧
      ∀ n, (kernel.trace (some (.boot 2 fun _ => 1)) [.svcThreadCreate 0 3, .svcSemaphoreWait 0 7]).countP
            (SysEvent.acquires n) + k.tokens (.scb n) =
          1 + (kernel.trace (some (.boot 2 fun _ => 1)) [.svcThreadCreate 0 3, .svcSemaphoreWait 0 7]).countP
            (SysEvent.releases n) ∧
        (k.tokens (.scb n) ≠ 0 → k.p_lnk (.scb n) = none) :=
  tokens_conserved 2 (fun _ => by decide) (by decide)

/-! ## Places -/

/-- The task `x` waits for a token, and before it only tasks of `l₀` and tasks above it. -/
def Ahead (l₀ : List Ptr) (n : Nat) (x : Ptr) (s : Scheduler Ptr) : Prop :=
  ∃ l r, s.waiting n = l ++ x :: r ∧ ∀ z ∈ l, z ∈ l₀ ∨ s.prio x < s.prio z

/-- A task that waits for a token keeps its place, as long as it waits. -/
theorem Ahead.serve {l₀ : List Ptr} (h : Ahead l₀ n x s) (hs : s.Sound .os_idle_TCB)
    (hnodup : (s.waiting n).Nodup)
    (hprio : ∀ z, s.Known z → (s.serve call).1.prio z = s.prio z)
    (hx : x ∈ (s.serve call).1.waiting n) : Ahead l₀ n x (s.serve call).1 := by
  obtain ⟨l, r, hwaiting, hahead⟩ := h
  have hknown (z : Ptr) (hz : z ∈ l ++ x :: r) : s.Known z := .inr (.inr (.inl ⟨n, hwaiting ▸ hz⟩))
  have hxprio := hprio x (hknown x (by simp))
  have hlprio : ∀ z ∈ l, (s.serve call).1.prio z = s.prio z :=
    fun z hz => hprio z (hknown z (List.mem_append_left _ hz))
  rw [hwaiting] at hnodup
  have hahead' : ∀ z ∈ l, z ∈ l₀ ∨ (s.serve call).1.prio x < (s.serve call).1.prio z := by
    intro z hz
    rw [hxprio, hlprio z hz]
    exact hahead z hz
  rcases waiting_cases s call n with heq | heq | ⟨y, l', hfirst, heq, -⟩ | ⟨-, heq⟩
  · exact ⟨l, r, heq.trans hwaiting, hahead'⟩
  · have hordered := hwaiting ▸ hs.waiting n
    rw [hwaiting] at heq
    by_cases hle : s.prio s.run ≤ s.prio x
    · rw [hordered.enqueue_behind hle] at heq
      exact ⟨l, _, heq, hahead'⟩
    · rw [enqueue_before (not_le.mp hle)] at heq
      refine ⟨_, r, heq, fun z hz => ?_⟩
      rcases mem_enqueue.mp hz with rfl | hz
      · rw [hxprio, hprio s.run (.inl rfl)]
        exact .inr (not_le.mp hle)
      · exact hahead' z hz
  · rw [hwaiting] at hfirst
    cases l with
    | nil =>
      obtain ⟨rfl, rfl⟩ : x = y ∧ r = l' := by simpa using hfirst
      rw [heq] at hx
      exact absurd hx (List.nodup_cons.mp hnodup).1
    | cons z l =>
      obtain ⟨rfl, rfl⟩ : z = y ∧ l ++ x :: r = l' := by simpa using hfirst
      exact ⟨l, r, heq, fun w hw => hahead' w (List.mem_cons_of_mem z hw)⟩
  · have hkept : x ∉ s.due := by
      rw [heq] at hx
      exact of_decide_eq_true (List.mem_filter.mp hx).2
    rw [hwaiting, List.filter_append, List.filter_cons_of_pos (by simpa using hkept)] at heq
    exact ⟨_, _, heq, fun z hz => hahead' z (List.mem_filter.mp hz).1⟩

/-- A token for which tasks wait goes to the first of them. -/
theorem acquired_first (hs : s.Sound .os_idle_TCB) (hwaits : s.waiting n ≠ [])
    (hy : .acquired n y ∈ (s.serve call).2) : ∃ l, s.waiting n = y :: l := by
  cases call with
  | systick => cases hy
  | svcThreadCreate m prio_stksz => cases hy
  | svcThreadTerminate => cases hy
  | svcDelay millisec => cases hy
  | svcThreadYield => cases hy
  | svcSemaphoreWait m millisec =>
    exfalso
    dsimp only [Scheduler.serve] at hy
    rw [wait] at hy
    split at hy
    case isTrue hkept =>
      obtain ⟨rfl, -⟩ : n = m ∧ y = s.run := by simpa using hy
      exact hwaits (hs.kept n hkept)
    · split at hy <;> cases hy
  | svcSemaphoreRelease m =>
    rw [Scheduler.serve] at hy
    split at hy
    · cases hy
    · dsimp only at hy
      rw [signal] at hy
      split at hy
      · simp at hy
      case h_2 z l hwaiting =>
        obtain ⟨rfl, rfl⟩ : n = m ∧ y = z := by simpa using hy
        exact ⟨l, hwaiting⟩

/-- The task `x` is in the list of the semaphore `n`. -/
def Kernel.Waits (k : Kernel) (n : Nat) (x : Ptr) : Prop := ∃ l, Linked.Chain k.p_lnk (.scb n) l ∧ x ∈ l

theorem Refines.waits_iff (h : Refines k s) : k.Waits n x ↔ x ∈ s.waiting n := by
  have hchain := h.queues.queues.chain (some n)
  refine ⟨?_, fun hx => ⟨_, hchain, hx⟩⟩
  rintro ⟨l, hl, hx⟩
  rwa [hl.unique hchain] at hx

theorem Ahead.run {o : Option Kernel} {l₀ : List Ptr} {later : List SysCall} (h : Ahead l₀ n x s)
    (hserves : Serves o s) (hadm : kernel.Admits SysEnabled o later)
    (hwaits : ∀ before, before <+: later → ∃ k', kernel.run o before = some k' ∧ k'.Waits n x) :
    Ahead l₀ n x (scheduler.run s later) := by
  induction later generalizing o s with
  | nil => exact h
  | cons call later ih =>
    obtain ⟨hnext, -⟩ := hserves.step hadm.1
    obtain ⟨k₁, hk₁, hrefines₁, -⟩ := id hnext
    obtain ⟨k, rfl, hrefines, hs⟩ := hserves
    obtain ⟨k', hk', hwait⟩ := hwaits [call] (List.prefix_append [call] later)
    obtain rfl : k₁ = k' := Option.some.inj (hk₁.symm.trans hk')
    refine ih ?_ hnext hadm.2 fun before hbefore => hwaits (call :: before) ?_
    · exact h.serve hs (hrefines.queues.queues.nodup (some n)) (fun z hz => hrefines.prio_kept hadm.1 hz)
        (hrefines₁.waits_iff.mp hwait)
    · exact List.prefix_cons_inj call |>.mpr hbefore

/-- Nobody is overtaken: while a task waits for a token, a token goes to it, to one of the
    tasks that were before it when it was first seen, or to a task of a higher priority. -/
theorem no_overtaking (os_maxtaskrun : Nat) {count : Nat → Nat} (hcount : ∀ n, count n ≤ 65535)
    {later : List SysCall}
    (hadm : kernel.Admits SysEnabled (some (.boot os_maxtaskrun count)) (calls ++ (later ++ [call])))
    (hk : kernel.run (some (.boot os_maxtaskrun count)) calls = some k)
    (hplace : Linked.Chain k.p_lnk (.scb n) (l ++ x :: r))
    (hwaits : ∀ before, before <+: later →
      ∃ k', kernel.run (some (.boot os_maxtaskrun count)) (calls ++ before) = some k' ∧ k'.Waits n x)
    (hy : .acquired n y ∈ kernel.out (kernel.run (some (.boot os_maxtaskrun count)) (calls ++ later)) call) :
    ∃ k', kernel.run (some (.boot os_maxtaskrun count)) (calls ++ later) = some k' ∧
      (y = x ∨ y ∈ l ∨ k'.prio x < k'.prio y) := by
  obtain ⟨hbefore, hafter⟩ := (kernel.admits_append _ _ _).mp hadm
  obtain ⟨hlater, hcall, -⟩ := (kernel.admits_append _ _ _).mp hafter
  have hserves := (serves_boot os_maxtaskrun hcount).run hbefore
  have hstart : Ahead l n x (scheduler.run (.init count) calls) := by
    obtain ⟨k₁, hk₁, hrefines, -⟩ := hserves
    obtain rfl : k₁ = k := Option.some.inj (hk₁.symm.trans hk)
    exact ⟨l, r, (hrefines.queues.queues.chain (some n)).unique hplace, fun z hz => .inl hz⟩
  obtain ⟨l', r', hwaiting, hahead⟩ := hstart.run hserves hlater fun before hprefix => by
    obtain ⟨k', hk', hwait⟩ := hwaits before hprefix
    exact ⟨k', by rw [← Machine.run_append, hk'], hwait⟩
  have hserves' := hserves.run hlater
  obtain ⟨-, hout⟩ := hserves'.step hcall
  obtain ⟨k', hk', hrefines', hs'⟩ := hserves'
  rw [Machine.run_append, hout] at hy
  obtain ⟨rest, hfirst⟩ := acquired_first hs' (by rw [hwaiting]; simp) hy
  refine ⟨k', by rw [Machine.run_append, hk'], ?_⟩
  rw [hwaiting] at hfirst
  rw [hrefines'.prio]
  cases l' with
  | nil => exact .inl (List.cons.inj hfirst).1.symm
  | cons z l' =>
    obtain rfl : z = y := (List.cons.inj hfirst).1
    exact .inr (hahead z List.mem_cons_self)

theorem no_overtaking_first :
    ∃ k', kernel.run (some (.boot 2 fun _ => 0)) ([.svcThreadCreate 0 3, .svcSemaphoreWait 0 7,
        .svcThreadCreate 1 3, .svcSemaphoreWait 0 7] ++ [.systick]) = some k' ∧
      (Ptr.tcb 0 = .tcb 1 ∨ Ptr.tcb 0 ∈ [Ptr.tcb 0] ∨ k'.prio (.tcb 1) < k'.prio (.tcb 0)) := by
  have hadm : kernel.Admits SysEnabled (some (.boot 2 fun _ => 0)) ([.svcThreadCreate 0 3, .svcSemaphoreWait 0 7,
      .svcThreadCreate 1 3, .svcSemaphoreWait 0 7] ++ ([.systick] ++ [.svcSemaphoreRelease 0])) := by decide
  refine no_overtaking (n := 0) (l := [.tcb 0]) (x := .tcb 1) (r := []) 2
    (fun _ => Nat.zero_le _) hadm rfl ⟨rfl, rfl, rfl⟩ (fun before hprefix => ?_) (by decide)
  have hwaits : ∀ n ≤ 1, ∃ k', kernel.run (some (.boot 2 fun _ => 0)) ([.svcThreadCreate 0 3, .svcSemaphoreWait 0 7,
      .svcThreadCreate 1 3, .svcSemaphoreWait 0 7] ++ List.replicate n .systick) = some k' ∧
        k'.Waits 0 (.tcb 1)
    | 0, _ => ⟨_, rfl, [.tcb 0, .tcb 1], ⟨rfl, rfl, rfl⟩, by decide⟩
    | 1, _ => ⟨_, rfl, [.tcb 0, .tcb 1], ⟨rfl, rfl, rfl⟩, by decide⟩
  obtain ⟨hlen, hticks⟩ := (List.prefix_replicate_iff (n := 1)).mp hprefix
  rw [hticks]
  exact hwaits before.length hlen

end

end Rtx
