-- SUMMARY: Every user timer runs as if it were alone, and expires exactly when its ticks have passed.
import SmartAlarm.Rtos.TimerRefinement

/-!
# User timers

No timer can tell that there are others. So when it expires is a matter of the calls on it
and of the ticks alone, however its neighbours come and go. The one thing they share but the
list is the queue of the timer thread, which is taken to have room for all of them.
-/

namespace Rtx

variable {n : Nat} {x : Fin n}

/-- The loops over the list of timers always end, and every timer runs as if it were alone,
    whatever is done with the others. -/
theorem timers_alone (is : List (TimerInput n)) (x : Fin n) :
    ((timers n).run (some (.zeroed n)) is).isSome ∧
      ((timers n).trace (some (.zeroed n)) is).filterMap (eventOf x) =
        countdown.trace .zeroed (is.flatMap (inputOf x)) := by
  obtain ⟨k', l', hrun, hmirrors⟩ := running_zeroed.run is
  refine ⟨by rw [hrun]; rfl, ?_⟩
  exact (hmirrors.follows x _ (follows_zeroed x)).2.symm

/-! ## What is seen of a timer -/

/-- The ticks of an input. -/
def passing : TimerInput n → Nat
  | .call _ _ => 0
  | .sysTimerTick => 1
  | .sysUserTimerUpdate sleep_time => sleep_time.toNat

def elapsed : List (TimerInput n) → Nat
  | [] => 0
  | i :: is => passing i + elapsed is

theorem inputOf_eq {i : TimerInput n} (hi : ∀ c, i ≠ .call x c) : inputOf x i = ticking (passing i) := by
  cases i with
  | call pt c => exact if_neg fun heq => hi c (by rw [heq])
  | sysTimerTick => rfl
  | sysUserTimerUpdate sleep_time => rfl

/-- As long as no call is made on a timer, it sees nothing but ticks. -/
theorem flatMap_inputOf {is : List (TimerInput n)} (hcalls : ∀ c, .call x c ∉ is) :
    is.flatMap (inputOf x) = ticking (elapsed is) := by
  induction is with
  | nil => rfl
  | cons i is ih =>
    have hhead : ∀ c, i ≠ .call x c := fun c heq => hcalls c (heq ▸ List.mem_cons_self)
    have htail : ∀ c, .call x c ∉ is := fun c hmem => hcalls c (List.mem_cons_of_mem _ hmem)
    rw [List.flatMap_cons, inputOf_eq hhead, ih htail, ← ticking_add]
    rfl

/-- A timer that is started is due as many ticks later as it was told, and so on if it is
    periodic. -/
theorem timer_on_time (is later : List (TimerInput n)) (x : Fin n) (type : TimerType) {millisec : UInt32}
    (hstopped : ((timers n).run (some (.zeroed n)) is).map (fun k => (k.state x, k.type x)) =
      some (.osTimerStopped, type))
    (hpos : millisec ≠ 0) (hcalls : ∀ c, .call x c ∉ later) :
    ((timers n).trace ((timers n).run (some (.zeroed n)) is)
        (.call x (.svcTimerStart millisec) :: later)).filterMap (eventOf x) =
      .returned .osOK :: List.replicate
        (if type = .osTimerPeriodic then elapsed later / millisec.toNat
          else if elapsed later < millisec.toNat then 0 else 1) .put := by
  obtain ⟨k, c, hrun, hstate, htype, htrace⟩ := reached is x
  rw [hrun] at hstopped ⊢
  obtain ⟨hidle, rfl⟩ := Prod.mk.inj (Option.some.inj hstopped)
  rw [htrace, List.flatMap_cons, flatMap_inputOf hcalls, inputOf, if_pos rfl, List.singleton_append,
    countdown_started (hstate.trans hidle) hpos, htype]

theorem timer_on_time_two :
    ((timers 2).trace ((timers 2).run (some (.zeroed 2))
        [.call 0 (.svcTimerCreate .osTimerPeriodic), .call 1 (.svcTimerCreate .osTimerOnce)])
      [.call 0 (.svcTimerStart 2), .call 1 (.svcTimerStart 1), .sysTimerTick, .sysUserTimerUpdate 4]).filterMap
        (eventOf 0) = [.returned .osOK, .put, .put] :=
  timer_on_time [.call 0 (.svcTimerCreate .osTimerPeriodic), .call 1 (.svcTimerCreate .osTimerOnce)]
    [.call 1 (.svcTimerStart 1), .sysTimerTick, .sysUserTimerUpdate 4] 0 .osTimerPeriodic
    (by decide) (by decide) (by simp)

/-- A periodic timer that is started again while it runs is due once at the new time, and then
    goes on with the period that it was started with first. -/
theorem restart_keeps_period (is between later : List (TimerInput n)) (x : Fin n) {p q : UInt32}
    (hstopped : ((timers n).run (some (.zeroed n)) is).map (fun k => (k.state x, k.type x)) =
      some (.osTimerStopped, .osTimerPeriodic))
    (hp : p ≠ 0) (hq : q ≠ 0) (hbetween : ∀ c, .call x c ∉ between) (hlater : ∀ c, .call x c ∉ later) :
    ((timers n).trace ((timers n).run (some (.zeroed n)) is)
        (.call x (.svcTimerStart p) :: between ++ .call x (.svcTimerStart q) :: later)).filterMap (eventOf x) =
      .returned .osOK :: List.replicate (elapsed between / p.toNat) .put ++
        .returned .osOK :: List.replicate
          (if elapsed later < q.toNat then 0 else 1 + (elapsed later - q.toNat) / p.toNat) .put := by
  obtain ⟨k, c, hrun, hstate, htype, htrace⟩ := reached is x
  rw [hrun] at hstopped ⊢
  obtain ⟨hidle, hperiodic⟩ := Prod.mk.inj (Option.some.inj hstopped)
  replace hidle := hstate.trans hidle
  replace hperiodic := htype.trans hperiodic
  have hinputs : (.call x (.svcTimerStart p) :: between ++ .call x (.svcTimerStart q) :: later).flatMap (inputOf x) =
      .call (.svcTimerStart p) :: ticking (elapsed between) ++
        .call (.svcTimerStart q) :: ticking (elapsed later) := by
    rw [List.flatMap_append, List.flatMap_cons, List.flatMap_cons, flatMap_inputOf hbetween,
      flatMap_inputOf hlater, inputOf, inputOf, if_pos rfl, if_pos rfl]
    rfl
  obtain ⟨c', hgo, hrunning, htype', hicnt⟩ :=
    countdown_started_goes_on hidle hperiodic hp (elapsed between)
  have hperiod : 0 < c'.icnt := by
    rw [hicnt, ← ticks_eq]
    exact (ticks_pos hp).1
  rw [htrace, hinputs, Machine.trace_append, hgo, countdown_started hidle hp, if_pos hperiodic,
    countdown_restarted hrunning htype' hperiod hq, hicnt]

theorem restart_keeps_period_three :
    ((timers 1).trace ((timers 1).run (some (.zeroed 1)) [.call 0 (.svcTimerCreate .osTimerPeriodic)])
      [.call 0 (.svcTimerStart 3), .sysTimerTick, .call 0 (.svcTimerStart 2), .sysUserTimerUpdate 6]).filterMap
        (eventOf 0) = [.returned .osOK, .returned .osOK, .put, .put] :=
  restart_keeps_period [.call 0 (.svcTimerCreate .osTimerPeriodic)] [.sysTimerTick] [.sysUserTimerUpdate 6] 0
    (by decide) (by decide) (by decide) (by simp) (by simp)

/-- A timer that is stopped or deleted is not put into the queue before it is started again. -/
theorem stopped_not_put (is later : List (TimerInput n)) (x : Fin n) {c : TimerCall}
    (hcall : c = .svcTimerStop ∨ c = .svcTimerDelete) (hcalls : ∀ c, .call x c ∉ later) :
    .put ∉ ((timers n).trace ((timers n).run (some (.zeroed n)) is) (.call x c :: later)).filterMap
      (eventOf x) := by
  obtain ⟨k, c', hrun, -, -, htrace⟩ := reached is x
  rw [hrun, htrace, List.flatMap_cons, flatMap_inputOf hcalls, inputOf, if_pos rfl]
  exact countdown_stopped hcall _

end Rtx
