-- SUMMARY: Who runs: the highest task that is ready, and among equals everyone in turn.
import SmartAlarm.Rtos.Soundness

/-!
# Turns

The task that runs is above or equal to all that are ready, and the idle task runs
only if it is alone. Among tasks of one priority a task has to wait for those
before it in the list, and for each of them no longer than the round robin lets
it run. Whatever else happens, it does not lose its place.
-/

namespace Rtx

open Function PriorityQueue Scheduler

/-- In every run the ready list is in order, and no task in it is above the one that
    runs. The idle task runs only if the list is empty. -/
theorem highest_runs (os_maxtaskrun : Nat) {count : Nat → Nat} (hcount : ∀ n, count n ≤ 65535)
    {calls : List SysCall}
    (hadm : kernel.Admits SysEnabled (some (.boot os_maxtaskrun count)) calls) :
    ∃ k run ready, kernel.run (some (.boot os_maxtaskrun count)) calls = some k ∧
      k.run = some run ∧ Linked.Chain k.p_lnk .os_rdy ready ∧ Ordered k.prio (run :: ready) ∧
      (run = .os_idle_TCB → ready = []) := by
  obtain ⟨k, hk, hrefines, hs⟩ := (serves_boot os_maxtaskrun hcount).run hadm
  refine ⟨k, _, _, hk, hrefines.run, hrefines.queues.queues.chain none, ?_, fun hidle => ?_⟩
  · rw [hrefines.prio]
    exact ordered_cons.mpr ⟨hs.highest, hs.ready⟩
  · refine List.eq_nil_iff_forall_not_mem.mpr fun x hx => ?_
    have hne : x ≠ .os_idle_TCB := by
      rintro rfl
      exact hrefines.run_out.1 none (hidle ▸ hx)
    have hpos := hs.above x (.inr (.inl hx)) hne
    have hle := hs.highest x hx
    rw [hidle, hs.idle_prio] at hle
    omega

theorem highest_runs_created :
    ∃ k run ready, kernel.run (some (.boot 2 fun _ => 0)) [.svcThreadCreate 0 3, .svcThreadCreate 1 4] = some k ∧
      k.run = some run ∧ Linked.Chain k.p_lnk .os_rdy ready ∧ Ordered k.prio (run :: ready) ∧
      (run = .os_idle_TCB → ready = []) :=
  highest_runs 2 (fun _ => Nat.zero_le _) (by decide)

section

variable {k : Kernel} {s : Scheduler Ptr} {x : Ptr} {call : SysCall} {μ : Nat} {l p r : List Ptr}

/-- The task `x` is ready, and those before it may run for `μ` ticks more. -/
def Turn (x : Ptr) (μ : Nat) (s : Scheduler Ptr) : Prop :=
  ∃ l r, s.ready = l ++ x :: r ∧ l.length * s.tout + s.left ≤ μ

theorem left_congr {s' : Scheduler Ptr} (hrun : s'.run = s.run) (hslice : s'.slice = s.slice)
    (htout : s'.tout = s.tout) : s'.left = s.left := by
  rw [left, left, hrun, hslice, htout]

/-- The first task before `x` has left the list. -/
theorem Turn.of_left {s' : Scheduler Ptr} {y : Ptr} {l' : List Ptr} (hlt : s'.left < s'.tout)
    (hready : s.ready = l ++ x :: r) (hμ : l.length * s.tout + s.left ≤ μ)
    (hfirst : s.ready = y :: l') (hrun : s'.run = y) (htout : s'.tout = s.tout)
    (hrest : ∀ l₁, l' = l₁ ++ x :: r → ∃ r', s'.ready = l₁ ++ x :: r') :
    s'.run = x ∨ Turn x μ s' := by
  rw [hready] at hfirst
  cases l with
  | nil => exact .inl (hrun.trans (List.cons.inj hfirst).1.symm)
  | cons z l =>
    obtain ⟨r', hready'⟩ := hrest l (List.cons.inj hfirst).2.symm
    refine .inr ⟨l, r', hready', ?_⟩
    rw [htout] at hlt ⊢
    rw [List.length_cons, Nat.succ_mul] at hμ
    omega

/-- A call other than the tick costs a task neither its place nor its time. -/
theorem Turn.serve (h : Turn x μ s) (hs : s.Sound .os_idle_TCB) (hs' : (s.serve call).1.Sound .os_idle_TCB)
    (hcall : call ≠ .systick) (hprio : ∀ z, s.Known z → (s.serve call).1.prio z = s.prio z)
    (hequal : s.prio s.run ≤ s.prio x)
    (hhigh : (s.serve call).1.prio (s.serve call).1.run ≤ (s.serve call).1.prio x) :
    (s.serve call).1.run = x ∨ Turn x μ (s.serve call).1 := by
  obtain ⟨l, r, hready, hμ⟩ := h
  obtain ⟨hslice, htout⟩ := slice_serve s hcall
  have hxready : x ∈ s.ready := hready ▸ by simp
  have hxprio := hprio x (.inr (.inl hxready))
  have hrunprio := hprio s.run (.inl rfl)
  have hxrun : s.prio x ≤ s.prio s.run := hs.highest x hxready
  have hordered : Ordered (s.serve call).1.prio (l ++ x :: r) :=
    hready ▸ hs.ready.congr fun z hz => hprio z (.inr (.inl hz))
  cases moved_serve s hcall with
  | same run ready =>
    refine .inr ⟨l, r, ready.trans hready, ?_⟩
    rwa [htout, left_congr run hslice htout]
  | preempted y above run ready =>
    rw [run] at hhigh
    omega
  | joined y below run ready =>
    rw [hready, hordered.enqueue_behind (by omega)] at ready
    refine .inr ⟨l, _, ready, ?_⟩
    rwa [htout, left_congr run hslice htout]
  | left y l' first run ready =>
    exact Turn.of_left hs'.left_lt hready hμ first run htout fun l₁ hl₁ => ⟨r, ready.trans hl₁⟩
  | passed y l' first equal run ready =>
    refine Turn.of_left hs'.left_lt hready hμ first run htout fun l₁ hl₁ => ⟨enqueue s.prio s.run r, ?_⟩
    have hrest : Ordered s.prio (l₁ ++ x :: r) :=
      hl₁ ▸ (ordered_cons.mp (first ▸ hs.ready)).2
    rw [ready, hl₁, hrest.enqueue_behind hequal]

/-- Tasks that wake are put behind a task that they are not above. -/
theorem ready_wake_behind (hordered : Ordered s.prio s.ready) (hready : s.ready = p ++ x :: r)
    (hl : ∀ z ∈ l, s.prio z ≤ s.prio x) : ∃ r', (l.foldl wake s).ready = p ++ x :: r' := by
  induction l generalizing s r with
  | nil => exact ⟨r, hready⟩
  | cons z l ih =>
    obtain ⟨hz, hl⟩ := List.forall_mem_cons.mp hl
    have hput : (s.wake z).ready = p ++ x :: enqueue s.prio z r := by
      rw [wake]
      dsimp only
      rw [hready, (hready ▸ hordered : Ordered s.prio (p ++ x :: r)).enqueue_behind hz]
    exact ih (hordered.enqueue z) hput hl

/-- What a tick leaves of the ready list before `x`. -/
theorem rotate_behind (hs : s.Sound .os_idle_TCB) (hready : s.ready = l ++ x :: r)
    (hequal : s.prio s.run ≤ s.prio x) :
    ∃ p r', s.rotate.1 = p ++ x :: r' ∧
      (s.left = 0 ∧ p = l ∧ s.rotate.2 = none ∨
        0 < s.left ∧ p = s.run :: l ∧ s.rotate.2 = some (s.run, s.left - 1)) := by
  rw [rotate]
  by_cases hzero : s.left = 0
  · rw [if_pos hzero, hready, (hready ▸ hs.ready : Ordered s.prio (l ++ x :: r)).enqueue_behind hequal]
    exact ⟨l, _, rfl, .inl ⟨hzero, rfl, rfl⟩⟩
  · rw [if_neg hzero, hready]
    exact ⟨s.run :: l, r, rfl, .inr ⟨Nat.pos_of_ne_zero hzero, rfl, rfl⟩⟩

/-- A tick brings a task nearer to its turn, if no task above it wakes. -/
theorem Turn.tick (h : Turn x μ s) (hs : s.Sound .os_idle_TCB) (hequal : s.prio s.run ≤ s.prio x)
    (hhigh : s.prio s.tick.run ≤ s.prio x) : s.tick.run = x ∨ 0 < μ ∧ Turn x (μ - 1) s.tick := by
  obtain ⟨l, r, hready, hμ⟩ := h
  obtain ⟨p, r₁, hrotated, hcases⟩ := rotate_behind hs hready hequal
  obtain ⟨s₁, hs₁, hready₁, hslice₁, hprio₁, htout₁⟩ : ∃ s₁ : Scheduler Ptr,
      s.tick = (s.due.foldl wake s₁).resume ∧ s₁.ready = s.rotate.1 ∧ s₁.slice = s.rotate.2 ∧
        s₁.prio = s.prio ∧ s₁.tout = s.tout := ⟨_, rfl, rfl, rfl, rfl, rfl⟩
  have hs' := hs.tick
  have hlt := hs'.left_lt
  have hhighest := hs'.highest
  rw [hs₁] at hhigh hlt hhighest ⊢
  rw [prio_resume, prio_wake, hprio₁] at hhighest
  have hdue : ∀ z ∈ s.due, s₁.prio z ≤ s₁.prio x := by
    intro z hz
    rw [hprio₁]
    rcases mem_resume (s := s.due.foldl wake s₁) (mem_ready_wake_of_mem hz) with heq | hz
    · exact heq ▸ hhigh
    · exact (hhighest z hz).trans hhigh
  have hordered : Ordered s₁.prio s₁.ready := by
    rw [hready₁, hprio₁]
    exact hs.ordered_rotate
  obtain ⟨r₂, hwoken⟩ := ready_wake_behind hordered (hready₁.trans hrotated) hdue
  have hresume : ∀ y p', p = y :: p' → (s.due.foldl wake s₁).resume.run = y ∧
      (s.due.foldl wake s₁).resume.ready = p' ++ x :: r₂ := by
    rintro y p' rfl
    rw [resume, hwoken]
    exact ⟨rfl, rfl⟩
  rcases hcases with ⟨hzero, rfl, hnone⟩ | ⟨hpos, rfl, hsome⟩
  · cases p with
    | nil =>
      refine .inl ?_
      rw [resume, hwoken]
      rfl
    | cons y l =>
      obtain ⟨-, hready'⟩ := hresume y l rfl
      rw [List.length_cons, Nat.succ_mul] at hμ
      have htout := hs.tout.1
      refine .inr ⟨by omega, l, r₂, hready', ?_⟩
      rw [tout_resume, tout_wake, htout₁] at hlt ⊢
      omega
  · obtain ⟨hrun, hready'⟩ := hresume s.run l rfl
    refine .inr ⟨by omega, l, r₂, hready', ?_⟩
    have hleft : (s.due.foldl wake s₁).resume.left = s.left - 1 := by
      rw [left, slice_resume, slice_wake, hslice₁, hsome, hrun]
      exact if_pos rfl
    rw [tout_resume, tout_wake, htout₁, hleft]
    omega

theorem Turn.run {o : Option Kernel} {calls : List SysCall} (h : Turn x μ s) (hserves : Serves o s)
    (hadm : kernel.Admits SysEnabled o calls)
    (hequal : ∀ before, before <+: calls → ∀ k run, kernel.run o before = some k → k.run = some run →
      k.prio run ≤ k.prio x)
    (hticks : μ < calls.count .systick) :
    ∃ before, before <+: calls ∧ (kernel.run o before).bind Kernel.run = some x := by
  induction calls generalizing o s μ with
  | nil => cases hticks
  | cons call calls ih =>
    obtain ⟨hnext, -⟩ := hserves.step hadm.1
    obtain ⟨k', hk', hrefines', hs'⟩ := id hnext
    obtain ⟨k, rfl, hrefines, hs⟩ := hserves
    have hequal₀ : s.prio s.run ≤ s.prio x := by
      have hle := hequal [] List.nil_prefix k s.run rfl hrefines.run
      rwa [hrefines.prio] at hle
    have hequal₁ : (scheduler.next s call).prio (scheduler.next s call).run ≤
        (scheduler.next s call).prio x := by
      have hle := hequal [call] (List.prefix_append [call] calls) k' _ hk' hrefines'.run
      rwa [hrefines'.prio] at hle
    have hxready : x ∈ s.ready := by
      obtain ⟨l, r, hready, -⟩ := h
      rw [hready]
      simp
    have hrest : ∀ {μ}, Turn x μ (scheduler.next s call) → μ < calls.count .systick →
        ∃ before, before <+: call :: calls ∧ (kernel.run (some k) before).bind Kernel.run = some x := by
      intro μ hturn hμ
      obtain ⟨before, hprefix, hrun⟩ := ih hturn hnext hadm.2 (fun before hprefix => hequal (call :: before)
        ((List.prefix_cons_inj call).mpr hprefix)) hμ
      exact ⟨call :: before, (List.prefix_cons_inj call).mpr hprefix, hrun⟩
    have hnow (hrun : (scheduler.next s call).run = x) :
        ∃ before, before <+: call :: calls ∧ (kernel.run (some k) before).bind Kernel.run = some x := by
      refine ⟨[call], List.prefix_append [call] calls, ?_⟩
      rw [Machine.run_cons, Machine.run_nil, hk', ← hrun]
      exact hrefines'.run
    by_cases hcall : call = .systick
    · subst hcall
      rw [List.count_cons_self] at hticks
      have hkept := hrefines.prio_kept hadm.1 (.inr (.inl hxready))
      have hkeptrun : s.tick.prio s.tick.run = s.prio s.tick.run := by simp [Scheduler.tick]
      rcases h.tick hs hequal₀ (hkeptrun ▸ hkept ▸ hequal₁) with hrun | ⟨hpos, hturn⟩
      · exact hnow hrun
      · exact hrest hturn (by omega)
    · rw [List.count_cons_of_ne hcall] at hticks
      rcases h.serve hs hs' hcall (fun z hz => hrefines.prio_kept hadm.1 hz) hequal₀ hequal₁ with hrun | hturn
      · exact hnow hrun
      · exact hrest hturn hticks

/-- The round robin lets a task run for five ticks, in every run. -/
theorem tout_run (count : Nat → Nat) (calls : List SysCall) :
    (scheduler.run (.init count) calls).tout = 5 := by
  refine scheduler.invariant (I := fun s => s.tout = 5) rfl (fun s call h => ?_) calls
  by_cases hcall : call = .systick
  · subst hcall
    have htout : s.tick.tout = s.tout := by simp [Scheduler.tick]
    exact htout.trans h
  · exact (slice_serve s hcall).2.trans h

/-- Among equals everyone has a turn: a task in the ready list runs before five ticks have
    passed for it and for every task before it, if no task above it runs meanwhile. -/
theorem turn_comes (os_maxtaskrun : Nat) {count : Nat → Nat} (hcount : ∀ n, count n ≤ 65535)
    {calls later : List SysCall}
    (hadm : kernel.Admits SysEnabled (some (.boot os_maxtaskrun count)) (calls ++ later))
    (hk : kernel.run (some (.boot os_maxtaskrun count)) calls = some k)
    (hplace : Linked.Chain k.p_lnk .os_rdy (l ++ x :: r))
    (hequal : ∀ before, before <+: later → ∀ k' run,
      kernel.run (some (.boot os_maxtaskrun count)) (calls ++ before) = some k' → k'.run = some run →
        k'.prio run ≤ k'.prio x)
    (hticks : (l.length + 1) * 5 ≤ later.count .systick) :
    ∃ before, before <+: later ∧
      (kernel.run (some (.boot os_maxtaskrun count)) (calls ++ before)).bind Kernel.run = some x := by
  obtain ⟨hbefore, hlater⟩ := (kernel.admits_append _ _ _).mp hadm
  have hserves := (serves_boot os_maxtaskrun hcount).run hbefore
  have hturn : Turn x (l.length * 5 + 4) (scheduler.run (.init count) calls) := by
    obtain ⟨k₁, hk₁, hrefines, hs⟩ := hserves
    obtain rfl : k₁ = k := Option.some.inj (hk₁.symm.trans hk)
    have htout : (scheduler.run (.init count) calls).tout = 5 := tout_run count calls
    have hlt := hs.left_lt
    refine ⟨l, r, (hrefines.queues.queues.chain none).unique hplace, ?_⟩
    rw [htout] at hlt ⊢
    omega
  obtain ⟨before, hprefix, hrun⟩ := hturn.run hserves hlater
    (fun before hprefix k' run hk' => hequal before hprefix k' run (by rw [Machine.run_append, hk']))
    (by omega)
  exact ⟨before, hprefix, by rw [Machine.run_append, hrun]⟩

theorem turn_comes_after_five_ticks :
    ∃ before, before <+: List.replicate 5 SysCall.systick ∧
      (kernel.run (some (.boot 2 fun _ => 0)) ([.svcThreadCreate 0 3, .svcThreadCreate 1 3] ++ before)).bind
        Kernel.run = some (.tcb 1) := by
  have hall : ∀ n ≤ 5, ((kernel.run (some (.boot 2 fun _ => 0))
      ([.svcThreadCreate 0 3, .svcThreadCreate 1 3] ++ List.replicate n .systick)).bind
        fun k => k.run.map fun run => decide (k.prio run ≤ k.prio (.tcb 1))) = some true := by decide
  refine turn_comes (l := []) (r := [.os_idle_TCB]) 2 (fun _ => Nat.zero_le _) (by decide) rfl
    ⟨rfl, rfl, rfl⟩ (fun before hprefix k' run hk' hrun => ?_) (by decide)
  obtain ⟨hlen, hticks⟩ := List.prefix_replicate_iff.mp hprefix
  have hle := hall before.length hlen
  rw [← hticks, hk'] at hle
  simpa [hrun] using hle

end

end Rtx
