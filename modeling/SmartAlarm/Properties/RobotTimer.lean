-- SUMMARY: How long a launch of the robot lasts: `tMotor` is started by the first launch and never taken back to 0.
import SmartAlarm.Properties.Standstill

/-!
# Ten seconds for each launch

`robotMove_thread` starts `tMotor` and drives until it reads more than 10. Nobody
stops or resets the timer, so it measures the time since the first launch of all.
A later launch finds it past its limit.
-/

namespace Firmware

/-! ## The loop and its timer -/

/-- The thread is in its outer loop, the test included. -/
def inLoop : Option RobotPc → Bool
  | none | some .startUpdates | some .startTimer | some .haltA | some .haltB => false
  | _ => true

def Action.duration : Action → ℚ
  | .elapse d => d
  | _         => 0

/-- The time that passes in a list of actions. -/
def timePassed (as : List Action) : ℚ := (as.map Action.duration).sum

theorem tMotor_elapse (s : System) (d : ℚ) :
    (system.next s (.elapse d)).timers .tMotor = (s.timers .tMotor).elapse d := rfl

theorem tMotor_robot {s : System} {pc : RobotPc} (h : s.robot = some pc) (distance : Int) :
    (system.next s (.robot distance)).timers .tMotor =
      if pc = .startTimer then (s.timers .tMotor).perform .start else s.timers .tMotor := by
  simp only [Machine.next, system, systemStep, h]
  cases pc <;> simp [robotStep, perform]

/-- A timer that runs goes on running and counts the time that passes. -/
theorem elapsed_next {s : System} (h : (s.timers .tMotor).running = true) (a : Action) :
    ((system.next s a).timers .tMotor).running = true ∧
      ((system.next s a).timers .tMotor).elapsed = (s.timers .tMotor).elapsed + a.duration := by
  cases a with
  | elapse d => simp [tMotor_elapse, Timer.elapse, h, Action.duration]
  | main i =>
    rw [(main_cases s i).1]
    exact ⟨h, (add_zero _).symm⟩
  | robot distance =>
    cases hrobot : s.robot with
    | none =>
      rw [Machine.next, step_robot_of_none hrobot]
      exact ⟨h, (add_zero _).symm⟩
    | some pc =>
      rw [tMotor_robot hrobot]
      split
      · exact ⟨rfl, (add_zero _).symm⟩
      · exact ⟨h, (add_zero _).symm⟩

theorem elapsed_run {s : System} (h : (s.timers .tMotor).running = true) (as : List Action) :
    ((system.run s as).timers .tMotor).running = true ∧
      ((system.run s as).timers .tMotor).elapsed = (s.timers .tMotor).elapsed + timePassed as := by
  induction as generalizing s with
  | nil => exact ⟨h, by simp [timePassed]⟩
  | cons a as ih =>
    obtain ⟨hnext, hcount⟩ := elapsed_next h a
    obtain ⟨hrunning, helapsed⟩ := ih hnext
    refine ⟨hrunning, ?_⟩
    calc ((system.run s (a :: as)).timers .tMotor).elapsed
        = ((system.next s a).timers .tMotor).elapsed + timePassed as := helapsed
      _ = (s.timers .tMotor).elapsed + a.duration + timePassed as := by rw [hcount]
      _ = (s.timers .tMotor).elapsed + timePassed (a :: as) := add_assoc _ _ _

/-! ## What a thread finds -/

/-- Before its first start `tMotor` is at 0. Once it runs, it is past its limit
    whenever no thread is in the loop. -/
structure Spending (s : System) : Prop where
  fresh : (s.timers .tMotor).running = false → (s.timers .tMotor).elapsed = 0
  passed : (s.timers .tMotor).running = true → inLoop s.robot = false →
    10 < (s.timers .tMotor).elapsed

theorem spending_init : Spending System.init := by
  refine ⟨fun _ => rfl, ?_⟩
  rintro ⟨⟩

/-- A step within the loop, or within what comes before and after it. The loop is
    entered by starting the timer and left when it reads more than 10. -/
theorem inLoop_robotStep {pc : RobotPc} {i : RobotSamples} (hpc : pc ≠ .startTimer)
    (h : inLoop (robotStep pc i).1 = false) : inLoop (some pc) = false ∨ 10 < i.tMotor := by
  cases pc with
  | startTimer => exact absurd rfl hpc
  | outerTest =>
    by_cases hlate : i.tMotor ≤ 10
    · simp [robotStep, hlate, inLoop] at h
    · exact .inr (not_le.mp hlate)
  | sense =>
    simp only [robotStep] at h
    split at h <;> cases h
  | turnTest =>
    simp only [robotStep] at h
    split at h <;> cases h
  | startUpdates | haltA | haltB => exact .inl rfl
  | _ => cases h

/-- A step that leaves the timer alone may leave the loop only past the limit. -/
theorem Spending.of_same {s t : System} (h : Spending s)
    (htimer : t.timers .tMotor = s.timers .tMotor)
    (hloop : inLoop t.robot = false → inLoop s.robot = false ∨ 10 < (s.timers .tMotor).elapsed) :
    Spending t := by
  refine ⟨?_, ?_⟩ <;> rw [htimer]
  · exact h.fresh
  · intro hrunning hout
    rcases hloop hout with hbefore | hlate
    · exact h.passed hrunning hbefore
    · exact hlate

theorem Spending.step {s : System} {a : Action} (h : Spending s) (hok : Enabled s a) :
    Spending (system.next s a) := by
  cases a with
  | elapse d =>
    cases hrunning : (s.timers .tMotor).running with
    | false =>
      have hsame : (system.next s (.elapse d)).timers .tMotor = s.timers .tMotor := by
        simp [tMotor_elapse, Timer.elapse, hrunning]
      exact h.of_same hsame .inl
    | true =>
      refine ⟨fun hstopped => ?_, fun _ hout => ?_⟩
      · simp [tMotor_elapse, Timer.elapse, hrunning] at hstopped
      · rw [tMotor_elapse]
        exact (h.passed hrunning hout).trans_le (le_elapsed_elapse hok _)
  | main i =>
    obtain ⟨htimer, hrobot⟩ := main_cases s i
    refine h.of_same htimer fun hout => .inl ?_
    rcases hrobot with ⟨hsame, -⟩ | ⟨hnone, -, -⟩
    · rwa [← hsame]
    · rw [hnone]
      rfl
  | robot distance =>
    obtain ⟨pc, hpc⟩ := Option.ne_none_iff_exists'.mp hok.1
    obtain ⟨-, hrobot, -⟩ := next_robot hpc distance
    have htimer := tMotor_robot hpc distance
    by_cases hstart : pc = .startTimer
    · subst hstart
      rw [if_pos rfl] at htimer
      refine ⟨?_, ?_⟩ <;> rw [htimer]
      · rintro ⟨⟩
      · rw [hrobot]
        rintro - ⟨⟩
    · rw [if_neg hstart] at htimer
      refine h.of_same htimer fun hout => ?_
      rw [hrobot] at hout
      rw [hpc]
      exact inLoop_robotStep hstart hout

/-- `tMotor` runs exactly if some thread has started it. -/
theorem running_iff_started (as : List Action) :
    ((system.run System.init as).timers .tMotor).running = true ↔
      .timer .tMotor .start ∈ system.trace System.init as := by
  refine system.history (J := fun _ tr s => (s.timers .tMotor).running = true ↔
    .timer .tMotor .start ∈ tr) ?_ ?_ as
  · exact ⟨by rintro ⟨⟩, by rintro ⟨⟩⟩
  · intro _ tr s a h
    rw [List.mem_append, ← h]
    cases a with
    | elapse d =>
      have hout : system.out s (.elapse d) = [] := rfl
      rw [tMotor_elapse, hout, Timer.elapse]
      split <;> simp
    | main i =>
      rw [(main_cases s i).1]
      refine (or_iff_left fun hmem => ?_).symm
      have hstart : ∀ e ∈ (mainStep s.main (s.inputs i)).2, e ≠ .timer .tMotor .start := by
        by_cases hpc : s.main.pc = .launch
        · simp only [mainStep, hpc]
          split <;> simp
        · rintro e he rfl
          exact absurd (isQuiet_mainStep hpc _ he) (by decide)
      exact hstart _ hmem rfl
    | robot distance =>
      cases hpc : s.robot with
      | none =>
        rw [Machine.next, Machine.out, step_robot_of_none hpc]
        simp
      | some pc =>
        rw [tMotor_robot hpc, out_robot hpc]
        cases pc <;> simp [robotStep, Timer.perform]

/-! ## Each invocation -/

/-- From just after its `tMotor.start()`, the thread does not leave the loop
    before more than ten seconds have passed. -/
def OwnTenSeconds (s : System) : Prop :=
  ∀ as, system.Admits (fun t a => Enabled t a ∧ inLoop t.robot = true) s as →
    (system.run s as).robot = some .haltA → 10 < timePassed as

/-- A timer that starts at 0 measures the launch. -/
theorem ownTenSeconds_of_elapsed_zero {s : System} (h : Spending s)
    (hrunning : (s.timers .tMotor).running = true) (hzero : (s.timers .tMotor).elapsed = 0) :
    OwnTenSeconds s := by
  intro as hadm hleft
  have hspending : Spending (system.run s as) :=
    system.invariant_of_admits hadm h fun _ _ ht hok => ht.step hok.1
  obtain ⟨hstill, helapsed⟩ := elapsed_run hrunning as
  rw [hzero, zero_add] at helapsed
  rw [← helapsed]
  exact hspending.passed hstill (by rw [hleft]; rfl)

/-- A timer that is past its limit ends the loop at its first test. -/
theorem not_ownTenSeconds_of_late {s : System} (hpc : s.robot = some .outerTest)
    (hwait : s.robotWait ≤ 0) (hlate : 10 < (s.timers .tMotor).elapsed) : ¬ OwnTenSeconds s := by
  intro h
  have hleft : (system.run s [.robot 0]).robot = some .haltA := by
    rw [Machine.run_cons, Machine.run_nil, (next_robot hpc 0).2.1]
    have htest : ¬ (s.robotSamples 0).tMotor ≤ 10 := not_le.mpr hlate
    simp [robotStep, htest]
  have hpassed := h [.robot 0] ⟨⟨⟨by simp [hpc], hwait⟩, by rw [hpc]; rfl⟩, trivial⟩ hleft
  norm_num [timePassed, Action.duration] at hpassed

theorem next_startTimer {s : System} (h : s.robot = some .startTimer) (distance : Int) :
    (system.next s (.robot distance)).robot = some .outerTest ∧
      (system.next s (.robot distance)).robotWait ≤ 0 ∧
      (system.next s (.robot distance)).timers .tMotor = (s.timers .tMotor).perform .start := by
  simp [Machine.next, system, systemStep, h, robotStep, perform, Event.delay]

/-- For every run and every invocation in it: the loop lasts more than ten seconds
    from the invocation's own `tMotor.start()`, exactly if no invocation before it
    in the run has started `tMotor`. -/
theorem own_ten_seconds_iff (as : List Action) (distance : Int)
    (hadm : system.Admits Enabled System.init (as ++ [.robot distance]))
    (hpc : (system.run System.init as).robot = some .startTimer) :
    OwnTenSeconds (system.run System.init (as ++ [.robot distance])) ↔
      .timer .tMotor .start ∉ system.trace System.init as := by
  obtain ⟨hbefore, hok, -⟩ := (system.admits_append _ _ _).mp hadm
  have hspending : Spending (system.run System.init as) :=
    system.invariant_of_admits hbefore spending_init fun _ _ h hok => h.step hok
  obtain ⟨htest, hwait, htimer⟩ := next_startTimer hpc distance
  have hstarted : ((system.next (system.run System.init as)
      (.robot distance)).timers .tMotor).running = true := by
    rw [htimer]
    rfl
  rw [Machine.run_concat, ← running_iff_started]
  constructor
  · intro hown hrunning
    refine not_ownTenSeconds_of_late htest hwait ?_ hown
    rw [htimer]
    exact hspending.passed hrunning (by rw [hpc]; rfl)
  · intro hfirst
    refine ownTenSeconds_of_elapsed_zero (hspending.step hok) hstarted ?_
    rw [htimer]
    exact hspending.fresh (Bool.eq_false_iff.mpr hfirst)

/-- The first launch, fifty seconds after midnight, up to where it starts its timer. -/
def firstLaunch : List Action := startUp 50 ++ mainSteps 2 50 ++ [.robot 100]

/-- A minute later the first launch has ended and the next has come to the same place. -/
def secondLaunch : List Action :=
  firstLaunch ++ [.robot 100, .elapse 60, .robot 100, .robot 100, .robot 100] ++
    mainSteps 3 110 ++ [.robot 100]

theorem own_ten_seconds_firstLaunch :
    OwnTenSeconds (system.run System.init (firstLaunch ++ [.robot 100])) :=
  (own_ten_seconds_iff firstLaunch 100 (by decide +kernel) (by decide +kernel)).mpr
    (by decide +kernel)

/-- The second launch leaves the loop at its first test. -/
theorem second_launch_leaves_at_once :
    ¬ ∀ (as : List Action) (distance : Int),
      system.Admits Enabled System.init (as ++ [.robot distance]) →
        (system.run System.init as).robot = some .startTimer →
          OwnTenSeconds (system.run System.init (as ++ [.robot distance])) := by
  intro h
  have hown := h secondLaunch 100 (by decide +kernel) (by decide +kernel)
  have hpassed := hown [.robot 100] (by decide +kernel) (by decide +kernel)
  norm_num [timePassed, Action.duration] at hpassed

end Firmware
