-- SUMMARY: What a user timer is for: a countdown that knows of no other timer.
import SmartAlarm.Rtos.Timer

/-!
# Countdowns

A timer by itself. It has no list to be in, only the ticks that it still has to go
while it runs.
-/

namespace Rtx

structure Countdown where
  state : TimerState
  type : TimerType
  tcnt : Nat
  icnt : Nat

namespace Countdown

/-- A call on the timer. A timer that runs is started again with a new time, but keeps its
    period. -/
def call (c : Countdown) : TimerCall → Countdown × TimerEvent
  | .svcTimerCreate type =>
    if c.state ≠ .osTimerInvalid then (c, .created false)
    else ({ c with state := .osTimerStopped, type := type }, .created true)
  | .svcTimerStart millisec =>
    if millisec = 0 then (c, .returned .osErrorValue)
    else
      match c.state with
      | .osTimerRunning => ({ c with tcnt := Timers.ticks millisec }, .returned .osOK)
      | .osTimerStopped =>
        ({ c with
            state := .osTimerRunning
            tcnt := Timers.ticks millisec
            icnt := Timers.ticks millisec }, .returned .osOK)
      | .osTimerInvalid => (c, .returned .osErrorResource)
  | .svcTimerStop =>
    if c.state ≠ .osTimerRunning then (c, .returned .osErrorResource)
    else ({ c with state := .osTimerStopped }, .returned .osOK)
  | .svcTimerDelete =>
    if c.state = .osTimerInvalid then (c, .returned .osErrorResource)
    else ({ c with state := .osTimerInvalid }, .returned .osOK)

def tick (c : Countdown) : Countdown × List TimerEvent :=
  if c.state ≠ .osTimerRunning then (c, [])
  else if 1 < c.tcnt then ({ c with tcnt := c.tcnt - 1 }, [])
  else if c.type = .osTimerPeriodic then ({ c with tcnt := c.icnt }, [.put])
  else ({ c with state := .osTimerStopped }, [.put])

def zeroed : Countdown := ⟨.osTimerInvalid, .osTimerOnce, 0, 0⟩

end Countdown

inductive CountdownInput where
  | call (c : TimerCall)
  | tick
deriving DecidableEq, Repr

def countdown : Machine Countdown CountdownInput TimerEvent where
  step c
    | .call call => ((c.call call).1, [(c.call call).2])
    | .tick      => c.tick

section

variable {c : Countdown}

/-- A number of ticks. -/
abbrev ticking (j : Nat) : List CountdownInput := List.replicate j .tick

theorem ticks_eq (millisec : UInt32) : Timers.ticks millisec = millisec.toNat := by
  have hlt := millisec.toNat_lt
  rw [Timers.ticks, u32]
  omega

theorem ticks_pos {millisec : UInt32} (hne : millisec ≠ 0) :
    0 < Timers.ticks millisec ∧ Timers.ticks millisec < 4294967296 := by
  rw [ticks_eq]
  refine ⟨Nat.pos_of_ne_zero fun hzero => hne ?_, millisec.toNat_lt⟩
  exact UInt32.toNat_inj.mp hzero

theorem ticking_add (i j : Nat) : ticking (i + j) = ticking i ++ ticking j :=
  List.replicate_add i j _

theorem countdown_idle (hidle : c.state ≠ .osTimerRunning) (j : Nat) :
    countdown.run c (ticking j) = c ∧ countdown.trace c (ticking j) = [] := by
  have htick : countdown.step c .tick = (c, []) := if_pos hidle
  induction j with
  | zero => exact ⟨rfl, rfl⟩
  | succ j ih =>
    rw [ticking, List.replicate_succ, Machine.run_cons, Machine.trace_cons, Machine.next, Machine.out, htick]
    exact ih

/-- Nothing is seen of a countdown before its time is over. -/
theorem countdown_silent (hrunning : c.state = .osTimerRunning) {j : Nat} (hj : j < c.tcnt) :
    countdown.run c (ticking j) = { c with tcnt := c.tcnt - j } ∧ countdown.trace c (ticking j) = [] := by
  induction j with
  | zero => exact ⟨rfl, rfl⟩
  | succ j ih =>
    obtain ⟨hrun, htrace⟩ := ih (by omega)
    have htick : countdown.step { c with tcnt := c.tcnt - j } .tick = ({ c with tcnt := c.tcnt - (j + 1) }, []) := by
      have hleft : 1 < c.tcnt - j := by omega
      exact (if_neg (not_not.mpr hrunning)).trans (if_pos hleft)
    rw [ticking_add, Machine.run_append, Machine.trace_append, hrun, htrace, ticking, List.replicate_one,
      Machine.run_cons, Machine.trace_cons, Machine.next, Machine.out, htick]
    exact ⟨rfl, rfl⟩

/-- The first tick that is seen of a countdown. -/
theorem countdown_due (hrunning : c.state = .osTimerRunning) (hpos : 0 < c.tcnt) (j : Nat) :
    countdown.trace c (ticking (c.tcnt + j)) =
      .put :: countdown.trace { c with tcnt := 1 }.tick.1 (ticking j) := by
  obtain ⟨hrun, htrace⟩ := countdown_silent hrunning (Nat.sub_one_lt (Nat.ne_of_gt hpos))
  have hsplit : c.tcnt + j = c.tcnt - 1 + (1 + j) := by omega
  have hone : c.tcnt - (c.tcnt - 1) = 1 := by omega
  have hput : { c with tcnt := 1 }.tick.2 = [.put] := by
    rw [Countdown.tick, if_neg (not_not.mpr hrunning), if_neg (by simp)]
    split <;> rfl
  rw [hsplit, ticking_add, Machine.trace_append, hrun, htrace, hone, ticking_add, ticking, List.replicate_one,
    List.nil_append, List.singleton_append, Machine.trace_cons, Machine.out, Machine.next]
  exact congrArg (· ++ _) hput

/-- How often a periodic countdown is over in `j` ticks. -/
theorem countdown_periodic (hrunning : c.state = .osTimerRunning) (hperiodic : c.type = .osTimerPeriodic)
    (hpos : 0 < c.tcnt) (hperiod : 0 < c.icnt) (j : Nat) :
    countdown.trace c (ticking j) =
      List.replicate (if j < c.tcnt then 0 else 1 + (j - c.tcnt) / c.icnt) .put := by
  induction j using Nat.strongRecOn generalizing c with
  | ind j ih =>
    by_cases hj : j < c.tcnt
    · rw [if_pos hj]
      exact (countdown_silent hrunning hj).2
    · have hreload : { c with tcnt := 1 }.tick.1 = { c with tcnt := c.icnt } := by
        rw [Countdown.tick, if_neg (not_not.mpr hrunning), if_neg (by simp), if_pos hperiodic]
      have hle := Nat.not_lt.mp hj
      have hdue := countdown_due hrunning hpos (j - c.tcnt)
      rw [Nat.add_sub_cancel' hle] at hdue
      have hcount : (if j - c.tcnt < c.icnt then 0 else 1 + (j - c.tcnt - c.icnt) / c.icnt) =
          (j - c.tcnt) / c.icnt := by
        split
        case isTrue hlt => exact (Nat.div_eq_of_lt hlt).symm
        case isFalse hge => rw [Nat.div_eq_sub_div hperiod (Nat.not_lt.mp hge), Nat.add_comm]
      have hrest := ih (j - c.tcnt) (by omega) (c := { c with tcnt := c.icnt }) hrunning hperiodic hperiod hperiod
      dsimp only at hrest
      rw [hdue, hreload, hrest, hcount, if_neg hj, Nat.add_comm 1, List.replicate_succ]

/-- A periodic countdown goes on with its period. -/
theorem countdown_goes_on (hrunning : c.state = .osTimerRunning) (hperiodic : c.type = .osTimerPeriodic) (j : Nat) :
    (countdown.run c (ticking j)).state = .osTimerRunning ∧
      (countdown.run c (ticking j)).type = .osTimerPeriodic ∧ (countdown.run c (ticking j)).icnt = c.icnt := by
  induction j generalizing c with
  | zero => exact ⟨hrunning, hperiodic, rfl⟩
  | succ j ih =>
    have htick : ∃ t, countdown.next c .tick = { c with tcnt := t } := by
      have hgo : ¬ c.state ≠ .osTimerRunning := not_not.mpr hrunning
      by_cases hmore : 1 < c.tcnt
      · exact ⟨_, congrArg Prod.fst ((if_neg hgo).trans (if_pos hmore))⟩
      · exact ⟨_, congrArg Prod.fst ((if_neg hgo).trans ((if_neg hmore).trans (if_pos hperiodic)))⟩
    obtain ⟨t, htick⟩ := htick
    rw [ticking, List.replicate_succ, Machine.run_cons, htick]
    exact ih (c := { c with tcnt := t }) hrunning hperiodic

/-- A countdown that is not periodic is over once. -/
theorem countdown_once (hrunning : c.state = .osTimerRunning) (honce : c.type = .osTimerOnce)
    (hpos : 0 < c.tcnt) (j : Nat) :
    countdown.trace c (ticking j) = List.replicate (if j < c.tcnt then 0 else 1) .put := by
  by_cases hj : j < c.tcnt
  · rw [if_pos hj]
    exact (countdown_silent hrunning hj).2
  · have hstop : { c with tcnt := 1 }.tick.1.state ≠ .osTimerRunning := by
      rw [Countdown.tick, if_neg (not_not.mpr hrunning), if_neg (by simp), if_neg (by simp [honce])]
      simp
    have hdue := countdown_due hrunning hpos (j - c.tcnt)
    rw [Nat.add_sub_cancel' (Nat.not_lt.mp hj), (countdown_idle hstop _).2] at hdue
    rw [hdue, if_neg hj]
    rfl

/-- A countdown that is started. -/
theorem countdown_started (hstopped : c.state = .osTimerStopped) {millisec : UInt32} (hne : millisec ≠ 0) (j : Nat) :
    countdown.trace c (.call (.svcTimerStart millisec) :: ticking j) =
      .returned .osOK :: List.replicate
        (if c.type = .osTimerPeriodic then j / millisec.toNat
          else if j < millisec.toNat then 0 else 1) .put := by
  obtain ⟨hpos, -⟩ := ticks_pos hne
  have hstep : countdown.step c (.call (.svcTimerStart millisec)) =
      ({ c with
          state := .osTimerRunning
          tcnt := Timers.ticks millisec
          icnt := Timers.ticks millisec }, [.returned .osOK]) := by
    simp only [countdown, Countdown.call, if_neg hne, hstopped]
  rw [Machine.trace_cons, Machine.out, Machine.next, hstep, List.singleton_append]
  congr 1
  by_cases hperiodic : c.type = .osTimerPeriodic
  · have hcount : (if j < Timers.ticks millisec then 0
        else 1 + (j - Timers.ticks millisec) / Timers.ticks millisec) = j / Timers.ticks millisec := by
      split
      case isTrue hlt => exact (Nat.div_eq_of_lt hlt).symm
      case isFalse hge => rw [Nat.div_eq_sub_div hpos (Nat.not_lt.mp hge), Nat.add_comm]
    rw [if_pos hperiodic, ← ticks_eq, ← hcount]
    exact countdown_periodic (c := { c with state := .osTimerRunning, tcnt := _, icnt := _ }) rfl hperiodic
      hpos hpos j
  · have honce : c.type = .osTimerOnce := by
      cases htype : c.type with
      | osTimerOnce => rfl
      | osTimerPeriodic => exact absurd htype hperiodic
    rw [if_neg hperiodic, ← ticks_eq]
    exact countdown_once (c := { c with state := .osTimerRunning, tcnt := _, icnt := _ }) rfl honce hpos j

theorem countdown_started_goes_on (hstopped : c.state = .osTimerStopped) (hperiodic : c.type = .osTimerPeriodic)
    {millisec : UInt32} (hne : millisec ≠ 0) (j : Nat) :
    ∃ c', countdown.run c (.call (.svcTimerStart millisec) :: ticking j) = c' ∧ c'.state = .osTimerRunning ∧
      c'.type = .osTimerPeriodic ∧ c'.icnt = millisec.toNat := by
  have hstart : countdown.next c (.call (.svcTimerStart millisec)) =
      { c with
          state := .osTimerRunning
          tcnt := Timers.ticks millisec
          icnt := Timers.ticks millisec } := by
    simp only [Machine.next, countdown, Countdown.call, if_neg hne, hstopped]
  rw [Machine.run_cons, hstart, ← ticks_eq]
  exact ⟨_, rfl, countdown_goes_on (c := { c with
    state := .osTimerRunning
    tcnt := Timers.ticks millisec
    icnt := Timers.ticks millisec }) rfl hperiodic j⟩

/-- A countdown that is started again. -/
theorem countdown_restarted (hrunning : c.state = .osTimerRunning) (hperiodic : c.type = .osTimerPeriodic)
    (hperiod : 0 < c.icnt) {millisec : UInt32} (hne : millisec ≠ 0) (j : Nat) :
    countdown.trace c (.call (.svcTimerStart millisec) :: ticking j) =
      .returned .osOK :: List.replicate
        (if j < millisec.toNat then 0 else 1 + (j - millisec.toNat) / c.icnt) .put := by
  have hstep : countdown.step c (.call (.svcTimerStart millisec)) =
      ({ c with tcnt := Timers.ticks millisec }, [.returned .osOK]) := by
    simp only [countdown, Countdown.call, if_neg hne, hrunning]
  rw [Machine.trace_cons, Machine.out, Machine.next, hstep, List.singleton_append, ← ticks_eq]
  exact congrArg _ (countdown_periodic (c := { c with tcnt := Timers.ticks millisec }) hrunning hperiodic
    (ticks_pos hne).1 hperiod j)

/-- A countdown that is stopped or deleted is not seen any more. -/
theorem countdown_stopped {call : TimerCall} (hcall : call = .svcTimerStop ∨ call = .svcTimerDelete) (j : Nat) :
    .put ∉ countdown.trace c (.call call :: ticking j) := by
  have hidle : (c.call call).1.state ≠ .osTimerRunning ∧ (c.call call).2 ≠ .put := by
    rcases hcall with rfl | rfl
    · by_cases hrunning : c.state = .osTimerRunning <;> simp [Countdown.call, hrunning]
    · by_cases hinvalid : c.state = .osTimerInvalid <;> simp [Countdown.call, hinvalid]
  have hafter : countdown.trace (countdown.next c (.call call)) (ticking j) = [] :=
    (countdown_idle hidle.1 j).2
  rw [Machine.trace_cons, hafter, List.append_nil, Machine.out, countdown]
  exact fun hput => hidle.2 (List.mem_singleton.mp hput).symm

end

end Rtx
