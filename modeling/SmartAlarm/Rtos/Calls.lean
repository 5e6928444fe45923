-- SUMMARY: What a call can do to the queues of the scheduler, one statement for each queue.
import SmartAlarm.Rtos.Scheduler

/-!
# Calls

Of every queue, what it can be after a call, said once. What holds over a run of
the scheduler follows from these statements, and no other proof looks into the
calls again.
-/

namespace Rtx

open Function PriorityQueue

/-- Whether a task has got a token of the semaphore `n`. -/
def SysEvent.acquires (n : Nat) : SysEvent → Bool
  | .acquired m _ => m = n
  | .released _   => false

/-- Whether a token of the semaphore `n` was given back. -/
def SysEvent.releases (n : Nat) : SysEvent → Bool
  | .acquired _ _ => false
  | .released m   => m = n

namespace Scheduler

section

variable {s : Scheduler Ptr} {x : Ptr} {t n : Nat} {call : SysCall} {l : List Ptr}

/-! ## Frames -/

@[simp] theorem prio_dispatch (s : Scheduler Ptr) (y : Ptr) : (s.dispatch y).prio = s.prio := by
  rw [dispatch]
  split <;> rfl

@[simp] theorem asleep_dispatch (s : Scheduler Ptr) (y : Ptr) : (s.dispatch y).asleep = s.asleep := by
  rw [dispatch]
  split <;> rfl

@[simp] theorem waiting_dispatch (s : Scheduler Ptr) (y : Ptr) : (s.dispatch y).waiting = s.waiting := by
  rw [dispatch]
  split <;> rfl

@[simp] theorem tokens_dispatch (s : Scheduler Ptr) (y : Ptr) : (s.dispatch y).tokens = s.tokens := by
  rw [dispatch]
  split <;> rfl

@[simp] theorem tout_dispatch (s : Scheduler Ptr) (y : Ptr) : (s.dispatch y).tout = s.tout := by
  rw [dispatch]
  split <;> rfl

@[simp] theorem slice_dispatch (s : Scheduler Ptr) (y : Ptr) : (s.dispatch y).slice = s.slice := by
  rw [dispatch]
  split <;> rfl

@[simp] theorem prio_resume (s : Scheduler Ptr) : s.resume.prio = s.prio := by
  rw [resume]
  split <;> rfl

@[simp] theorem asleep_resume (s : Scheduler Ptr) : s.resume.asleep = s.asleep := by
  rw [resume]
  split <;> rfl

@[simp] theorem waiting_resume (s : Scheduler Ptr) : s.resume.waiting = s.waiting := by
  rw [resume]
  split <;> rfl

@[simp] theorem tokens_resume (s : Scheduler Ptr) : s.resume.tokens = s.tokens := by
  rw [resume]
  split <;> rfl

@[simp] theorem tout_resume (s : Scheduler Ptr) : s.resume.tout = s.tout := by
  rw [resume]
  split <;> rfl

@[simp] theorem slice_resume (s : Scheduler Ptr) : s.resume.slice = s.slice := by
  rw [resume]
  split <;> rfl

@[simp] theorem prio_sleep (s : Scheduler Ptr) (d : Nat) : (s.sleep d).prio = s.prio := by
  rw [sleep]
  split <;> rfl

@[simp] theorem run_sleep (s : Scheduler Ptr) (d : Nat) : (s.sleep d).run = s.run := by
  rw [sleep]
  split <;> rfl

@[simp] theorem waiting_sleep (s : Scheduler Ptr) (d : Nat) : (s.sleep d).waiting = s.waiting := by
  rw [sleep]
  split <;> rfl

@[simp] theorem tokens_sleep (s : Scheduler Ptr) (d : Nat) : (s.sleep d).tokens = s.tokens := by
  rw [sleep]
  split <;> rfl

@[simp] theorem tout_sleep (s : Scheduler Ptr) (d : Nat) : (s.sleep d).tout = s.tout := by
  rw [sleep]
  split <;> rfl

@[simp] theorem slice_sleep (s : Scheduler Ptr) (d : Nat) : (s.sleep d).slice = s.slice := by
  rw [sleep]
  split <;> rfl

@[simp] theorem prio_wake (s : Scheduler Ptr) (l : List Ptr) : (l.foldl wake s).prio = s.prio := by
  induction l generalizing s with
  | nil => rfl
  | cons y l ih => exact ih (s.wake y)

@[simp] theorem run_wake (s : Scheduler Ptr) (l : List Ptr) : (l.foldl wake s).run = s.run := by
  induction l generalizing s with
  | nil => rfl
  | cons y l ih => exact ih (s.wake y)

@[simp] theorem asleep_wake (s : Scheduler Ptr) (l : List Ptr) : (l.foldl wake s).asleep = s.asleep := by
  induction l generalizing s with
  | nil => rfl
  | cons y l ih => exact ih (s.wake y)

@[simp] theorem tokens_wake (s : Scheduler Ptr) (l : List Ptr) : (l.foldl wake s).tokens = s.tokens := by
  induction l generalizing s with
  | nil => rfl
  | cons y l ih => exact ih (s.wake y)

@[simp] theorem tout_wake (s : Scheduler Ptr) (l : List Ptr) : (l.foldl wake s).tout = s.tout := by
  induction l generalizing s with
  | nil => rfl
  | cons y l ih => exact ih (s.wake y)

@[simp] theorem slice_wake (s : Scheduler Ptr) (l : List Ptr) : (l.foldl wake s).slice = s.slice := by
  induction l generalizing s with
  | nil => rfl
  | cons y l ih => exact ih (s.wake y)

theorem mem_asleep_sleep (h : (x, t) ∈ s.asleep) (d : Nat) : (x, t) ∈ (s.sleep d).asleep := by
  rw [sleep]
  split
  · exact DeltaList.mem_insert.mpr (.inr h)
  · exact h

theorem waiting_wake (s : Scheduler Ptr) (l : List Ptr) (n : Nat) :
    (l.foldl wake s).waiting n = (s.waiting n).filter fun y => y ∉ l := by
  induction l generalizing s with
  | nil => simp
  | cons z l ih =>
    rw [List.foldl_cons, ih, wake, List.filter_filter]
    refine List.filter_congr fun y _ => ?_
    simp only [List.mem_cons, not_or, Bool.decide_and]
    exact Bool.and_comm _ _

theorem mem_ready_wake_of_mem (h : x ∈ l) : x ∈ (l.foldl wake s).ready := by
  induction l generalizing s with
  | nil => cases h
  | cons y l ih =>
    rcases List.mem_cons.mp h with rfl | h
    · exact mem_ready_wake (mem_enqueue.mpr (.inl rfl)) l
    · exact ih h

theorem mem_resume (h : x ∈ s.ready) : x = s.resume.run ∨ x ∈ s.resume.ready := by
  rw [resume]
  split
  · exact .inr h
  case h_2 y l hready => exact List.mem_cons.mp (hready ▸ h)

/-! ## One call -/

/-- A call other than the tick leaves a sleeping task its time, or gives it a token. -/
theorem asleep_serve (h : (x, t) ∈ s.asleep) (hcall : call ≠ .systick) :
    (x, t) ∈ (s.serve call).1.asleep ∨ ∃ n, .acquired n x ∈ (s.serve call).2 := by
  cases call with
  | systick => exact absurd rfl hcall
  | svcThreadCreate n prio_stksz =>
    refine .inl ?_
    dsimp only [Scheduler.serve]
    rw [create, asleep_dispatch]
    exact h
  | svcThreadTerminate => exact .inl (by rwa [Scheduler.serve, asleep_resume])
  | svcDelay millisec =>
    refine .inl ?_
    dsimp only [Scheduler.serve]
    rw [delay]
    split
    · exact h
    · rw [asleep_resume]
      exact mem_asleep_sleep h _
  | svcThreadYield =>
    refine .inl ?_
    dsimp only [Scheduler.serve]
    rw [pass]
    split
    · exact h
    · split <;> exact h
  | svcSemaphoreWait n millisec =>
    refine .inl ?_
    dsimp only [Scheduler.serve]
    rw [wait]
    split
    · exact h
    · split
      · exact h
      · rw [asleep_resume]
        exact mem_asleep_sleep (s := { s with
          waiting := update s.waiting n (enqueue s.prio s.run (s.waiting n)) }) h _
  | svcSemaphoreRelease n =>
    rw [Scheduler.serve]
    split
    · exact .inl h
    · dsimp only
      rw [signal]
      split
      · exact .inl h
      case h_2 y l hwaiting =>
        by_cases hxy : x = y
        · exact .inr ⟨n, by simp [hxy]⟩
        · refine .inl ?_
          rw [asleep_dispatch]
          exact List.mem_filter.mpr ⟨h, decide_eq_true hxy⟩

/-- The tasks that wait for a semaphore after a call. -/
theorem waiting_cases (s : Scheduler Ptr) (call : SysCall) (n : Nat) :
    (s.serve call).1.waiting n = s.waiting n ∨
    (s.serve call).1.waiting n = enqueue s.prio s.run (s.waiting n) ∨
    (∃ y l, s.waiting n = y :: l ∧ (s.serve call).1.waiting n = l ∧ .acquired n y ∈ (s.serve call).2) ∨
    (call = .systick ∧ (s.serve call).1.waiting n = (s.waiting n).filter fun y => y ∉ s.due) := by
  cases call with
  | systick =>
    refine .inr (.inr (.inr ⟨rfl, ?_⟩))
    dsimp only [Scheduler.serve]
    rw [tick, waiting_resume, waiting_wake]
  | svcThreadCreate m prio_stksz =>
    refine .inl ?_
    dsimp only [Scheduler.serve]
    rw [create, waiting_dispatch]
  | svcThreadTerminate => exact .inl (by rw [Scheduler.serve, waiting_resume])
  | svcDelay millisec =>
    refine .inl ?_
    dsimp only [Scheduler.serve]
    rw [delay]
    split
    · rfl
    · rw [waiting_resume, waiting_sleep]
  | svcThreadYield =>
    refine .inl ?_
    dsimp only [Scheduler.serve]
    rw [pass]
    split
    · rfl
    · split <;> rfl
  | svcSemaphoreWait m millisec =>
    dsimp only [Scheduler.serve]
    rw [wait]
    split
    · exact .inl rfl
    · split
      · exact .inl rfl
      · rw [waiting_resume, waiting_sleep]
        dsimp only
        by_cases hn : n = m
        · subst hn
          exact .inr (.inl (update_self _ _ _))
        · exact .inl (update_of_ne hn _ _)
  | svcSemaphoreRelease m =>
    rw [Scheduler.serve]
    split
    · exact .inl rfl
    · dsimp only
      rw [signal]
      split
      · exact .inl rfl
      case h_2 y l hwaiting =>
        dsimp only
        rw [waiting_dispatch]
        by_cases hn : n = m
        · subst hn
          exact .inr (.inr (.inl ⟨y, l, hwaiting, update_self _ _ _, by simp⟩))
        · exact .inl (update_of_ne hn _ _)

/-- Only the running task goes to wait for a token. -/
theorem waiting_serve (hx : x ∈ (s.serve call).1.waiting n) : x = s.run ∨ x ∈ s.waiting n := by
  rcases waiting_cases s call n with heq | heq | ⟨y, l, hwaiting, heq, -⟩ | ⟨-, heq⟩ <;> rw [heq] at hx
  · exact .inr hx
  · exact mem_enqueue.mp hx
  · exact .inr (hwaiting ▸ List.mem_cons_of_mem y hx)
  · exact .inr (List.mem_filter.mp hx).1

/-- A task that waits for a token waits on, if it is not given one and is not due. -/
theorem waiting_kept (hx : x ∈ s.waiting n) (hdue : call = .systick → x ∉ s.due) :
    x ∈ (s.serve call).1.waiting n ∨ .acquired n x ∈ (s.serve call).2 := by
  rcases waiting_cases s call n with heq | heq | ⟨y, l, hwaiting, heq, hgiven⟩ | ⟨htick, heq⟩ <;> rw [heq]
  · exact .inl hx
  · exact .inl (mem_enqueue.mpr (.inr hx))
  · rcases List.mem_cons.mp (hwaiting ▸ hx) with rfl | hx
    · exact .inr hgiven
    · exact .inl hx
  · exact .inl (List.mem_filter.mpr ⟨hx, decide_eq_true (hdue htick)⟩)

/-- A token is given to a task that runs, or to one that waits for it. -/
theorem acquired_serve (h : .acquired n x ∈ (s.serve call).2) : x = s.run ∨ x ∈ s.waiting n := by
  cases call with
  | systick => cases h
  | svcThreadCreate n prio_stksz => cases h
  | svcThreadTerminate => cases h
  | svcDelay millisec => cases h
  | svcThreadYield => cases h
  | svcSemaphoreWait m millisec =>
    simp only [Scheduler.serve] at h
    split at h
    · simp only [List.mem_singleton, SysEvent.acquired.injEq] at h
      exact .inl h.2
    · cases h
  | svcSemaphoreRelease m =>
    rw [Scheduler.serve] at h
    split at h
    · cases h
    · dsimp only at h
      rw [signal] at h
      split at h
      · simp at h
      case h_2 y l hwaiting =>
        obtain ⟨rfl, rfl⟩ : n = m ∧ x = y := by simpa using h
        exact .inr (hwaiting ▸ List.mem_cons_self)

theorem not_due (hnodup : (s.asleep.map Prod.fst).Nodup) (h : (x, t) ∈ s.asleep) (ht : 1 < t) :
    x ∉ s.due := by
  intro hdue
  obtain ⟨z, hz, rfl⟩ := List.mem_map.mp hdue
  have hzero : z.2 = 0 := by simpa using List.mem_takeWhile_imp hz
  obtain ⟨y, hy, rfl⟩ := List.mem_map.mp (List.takeWhile_sublist _ |>.subset hz)
  have hsame : y = (y.1, t) := List.inj_on_of_nodup_map hnodup hy h rfl
  have htime : y.2 = t := congrArg Prod.snd hsame
  dsimp only at hzero
  omega

theorem tick_asleep (s : Scheduler Ptr) :
    s.tick.asleep = (DeltaList.tick s.asleep).dropWhile fun y => y.2 = 0 := by
  rw [tick, asleep_resume, asleep_wake]

/-- A tick takes one from the time of a task that is not due. -/
theorem asleep_tick (h : (x, t) ∈ s.asleep) (ht : 1 < t) : (x, t - 1) ∈ s.tick.asleep := by
  have hticked : (x, t - 1) ∈ DeltaList.tick s.asleep := List.mem_map_of_mem h
  rw [tick_asleep]
  rw [← List.takeWhile_append_dropWhile (p := fun y : Ptr × Nat => y.2 = 0) (l := DeltaList.tick _)]
    at hticked
  rcases List.mem_append.mp hticked with hdue | hrest
  · have hzero : t - 1 = 0 := by simpa using List.mem_takeWhile_imp hdue
    omega
  · exact hrest

/-- What a call other than the tick can do to the running task and the ready list. -/
inductive Moved (s s' : Scheduler Ptr) : Prop where
  | same (run : s'.run = s.run) (ready : s'.ready = s.ready)
  /-- A task from elsewhere runs, since it is above. -/
  | preempted (y : Ptr) (above : s'.prio s.run < s'.prio y) (run : s'.run = y)
      (ready : s'.ready = s.run :: s.ready)
  /-- A task from elsewhere is ready. -/
  | joined (y : Ptr) (below : s'.prio y ≤ s'.prio s.run) (run : s'.run = s.run)
      (ready : s'.ready = enqueue s'.prio y s.ready)
  /-- The running task has gone elsewhere. -/
  | left (y : Ptr) (l : List Ptr) (first : s.ready = y :: l) (run : s'.run = y) (ready : s'.ready = l)
  /-- The running task has let the next of its priority run. -/
  | passed (y : Ptr) (l : List Ptr) (first : s.ready = y :: l) (equal : s.prio y = s.prio s.run)
      (run : s'.run = y) (ready : s'.ready = enqueue s.prio s.run l)

theorem moved_dispatch (s : Scheduler Ptr) (y : Ptr) : Moved s (s.dispatch y) := by
  rw [dispatch]
  split
  case isTrue hlt => exact .preempted y hlt rfl rfl
  case isFalse hle => exact .joined y (not_lt.mp hle) rfl rfl

theorem moved_resume (s : Scheduler Ptr) : Moved s s.resume := by
  rw [resume]
  split
  · exact .same rfl rfl
  case h_2 y l hready => exact .left y l hready rfl rfl

/-- What changes of a task that goes to sleep, or to wait, is not what `Moved` is about. -/
theorem Moved.of_eq {s₀ s' : Scheduler Ptr} (h : Moved s₀ s') (hprio : s₀.prio = s.prio)
    (hrun : s₀.run = s.run) (hready : s₀.ready = s.ready) : Moved s s' := by
  cases h with
  | same run ready => exact .same (run.trans hrun) (ready.trans hready)
  | preempted y above run ready => exact .preempted y (hrun ▸ above) run (by rw [ready, hrun, hready])
  | joined y below run ready => exact .joined y (hrun ▸ below) (run.trans hrun) (by rw [ready, hready])
  | left y l first run ready => exact .left y l (hready ▸ first) run ready
  | passed y l first equal run ready =>
    exact .passed y l (hready ▸ first) (by rw [← hprio, ← hrun, equal]) run (by rw [ready, hprio, hrun])

theorem moved_serve (s : Scheduler Ptr) (hcall : call ≠ .systick) : Moved s (s.serve call).1 := by
  cases call with
  | systick => exact absurd rfl hcall
  | svcThreadCreate n prio_stksz =>
    dsimp only [Scheduler.serve]
    rw [create, dispatch]
    split
    case isTrue hlt => exact .preempted _ hlt rfl rfl
    case isFalse hle => exact .joined _ (not_lt.mp hle) rfl rfl
  | svcThreadTerminate => exact moved_resume s
  | svcDelay millisec =>
    dsimp only [Scheduler.serve]
    rw [delay]
    split
    · exact .same rfl rfl
    · exact (moved_resume _).of_eq (prio_sleep s _) (run_sleep s _) (ready_sleep s _)
  | svcThreadYield =>
    dsimp only [Scheduler.serve]
    rw [pass]
    split
    · exact .same rfl rfl
    case h_2 y l hready =>
      split
      case isTrue hequal => exact .passed y l hready hequal rfl rfl
      · exact .same rfl rfl
  | svcSemaphoreWait n millisec =>
    dsimp only [Scheduler.serve]
    rw [wait]
    split
    · exact .same rfl rfl
    · split
      · exact .same rfl rfl
      · exact (moved_resume _).of_eq (prio_sleep _ _) (run_sleep _ _) (ready_sleep _ _)
  | svcSemaphoreRelease n =>
    rw [Scheduler.serve]
    split
    · exact .same rfl rfl
    · dsimp only
      rw [signal]
      split
      · exact .same rfl rfl
      · exact (moved_dispatch _ _).of_eq rfl rfl rfl

/-- Only the tick has to do with the round robin. -/
theorem slice_serve (s : Scheduler Ptr) (hcall : call ≠ .systick) :
    (s.serve call).1.slice = s.slice ∧ (s.serve call).1.tout = s.tout := by
  cases call with
  | systick => exact absurd rfl hcall
  | svcThreadCreate n prio_stksz => simp [Scheduler.serve, create]
  | svcThreadTerminate => simp [Scheduler.serve]
  | svcDelay millisec =>
    dsimp only [Scheduler.serve]
    rw [delay]
    split <;> simp
  | svcThreadYield =>
    dsimp only [Scheduler.serve]
    rw [pass]
    split
    · exact ⟨rfl, rfl⟩
    · split <;> exact ⟨rfl, rfl⟩
  | svcSemaphoreWait n millisec =>
    dsimp only [Scheduler.serve]
    rw [wait]
    split
    · exact ⟨rfl, rfl⟩
    · split <;> simp
  | svcSemaphoreRelease n =>
    rw [Scheduler.serve]
    split
    · exact ⟨rfl, rfl⟩
    · dsimp only
      rw [signal]
      split <;> simp

/-- A call gives a priority to the task that it creates, and to no other. -/
theorem prio_serve (s : Scheduler Ptr) (hnew : ∀ n prio_stksz, call = .svcThreadCreate n prio_stksz → x ≠ .tcb n) :
    (s.serve call).1.prio x = s.prio x := by
  cases call with
  | systick =>
    dsimp only [Scheduler.serve]
    rw [tick, prio_resume, prio_wake]
  | svcThreadCreate n prio_stksz =>
    dsimp only [Scheduler.serve]
    rw [create, prio_dispatch]
    exact update_of_ne (hnew n prio_stksz rfl) _ _
  | svcThreadTerminate => rw [Scheduler.serve, prio_resume]
  | svcDelay millisec =>
    dsimp only [Scheduler.serve]
    rw [delay]
    split
    · rfl
    · rw [prio_resume, prio_sleep]
  | svcThreadYield =>
    dsimp only [Scheduler.serve]
    rw [pass]
    split
    · rfl
    · split <;> rfl
  | svcSemaphoreWait n millisec =>
    dsimp only [Scheduler.serve]
    rw [wait]
    split
    · rfl
    · split
      · rfl
      · rw [prio_resume, prio_sleep]
  | svcSemaphoreRelease n =>
    rw [Scheduler.serve]
    split
    · rfl
    · dsimp only
      rw [signal]
      split
      · rfl
      · rw [prio_dispatch]

/-! ## Tokens -/

/-- No call makes a token or loses one. -/
theorem tokens_serve (s : Scheduler Ptr) (call : SysCall) (n : Nat) :
    (s.serve call).2.countP (SysEvent.acquires n) + (s.serve call).1.tokens n =
      s.tokens n + (s.serve call).2.countP (SysEvent.releases n) := by
  cases call with
  | systick => simp [Scheduler.serve, tick]
  | svcThreadCreate m prio_stksz => simp [Scheduler.serve, create]
  | svcThreadTerminate => simp [Scheduler.serve]
  | svcDelay millisec =>
    dsimp only [Scheduler.serve]
    rw [delay]
    split <;> simp
  | svcThreadYield =>
    dsimp only [Scheduler.serve]
    rw [pass]
    split
    · simp
    · split <;> simp
  | svcSemaphoreWait m millisec =>
    dsimp only [Scheduler.serve]
    rw [wait]
    split
    case isTrue hkept =>
      by_cases hn : m = n
      · subst hn
        simp [SysEvent.acquires, SysEvent.releases]
        omega
      · simp [SysEvent.acquires, SysEvent.releases, hn, Ne.symm hn]
    · split <;> simp
  | svcSemaphoreRelease m =>
    rw [Scheduler.serve]
    split
    · simp
    · dsimp only
      rw [signal]
      by_cases hn : m = n
      · subst hn
        split <;> simp [SysEvent.acquires, SysEvent.releases, Nat.add_comm]
      · split <;> simp [SysEvent.acquires, SysEvent.releases, hn, Ne.symm hn]

end

end Scheduler

end Rtx
