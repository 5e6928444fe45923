-- SUMMARY: When the motors can turn: never at the robot's outer test, and never again once its first launch has ended.
import SmartAlarm.Properties.RobotReversal
import SmartAlarm.Properties.RobotTimer

/-!
# When the motors turn

A motor is at rest if the last command it obeyed was to stop. Which motors can be
turning is a matter of where the robot thread is, since `main` only stops them.
After the first launch `tMotor` is past its limit, so no thread turns them again.
-/

/-! ## A motor at rest -/

namespace Motor

/-- No current: both outputs are off, and so is the pulse. -/
structure AtRest (m : Motor) : Prop where
  pwm : m.pwm = 0
  fwd : m.fwd = false
  rev : m.rev = false

theorem atRest_init : init.AtRest := ⟨rfl, rfl, rfl⟩

/-- A motor that calls of `speed` have made keeps the direction of one of them. -/
theorem sign_cases (vs : List ℚ) :
    (init.obey vs).sign = 0 ∨ (init.obey vs).sign = 1 ∨ (init.obey vs).sign = -1 := by
  rw [sign_obey, direction]
  split
  · exact .inr (.inl rfl)
  · split
    · exact .inr (.inr rfl)
    · exact .inl rfl

/-- A command to stop is always obeyed. -/
theorem atRest_speed_zero (vs : List ℚ) : ((init.obey vs).speed 0).1.AtRest := by
  rcases sign_cases vs with hsign | hsign | hsign <;>
    exact ⟨by simp [speed, hsign, drive], by simp [speed, hsign, drive], by simp [speed, hsign, drive]⟩

theorem obey_concat (m : Motor) (vs : List ℚ) (v : ℚ) :
    m.obey (vs ++ [v]) = ((m.obey vs).speed v).1 := by
  rw [obey, List.foldl_append]
  rfl

theorem atRest_obey {vs : List ℚ} (h : vs.getLastD 0 = 0) : (init.obey vs).AtRest := by
  rcases List.eq_nil_or_concat' vs with rfl | ⟨vs, v, rfl⟩
  · exact atRest_init
  · rw [List.getLastD_concat] at h
    rw [obey_concat, h]
    exact atRest_speed_zero vs

end Motor

namespace Firmware

/-! ## Where the motors can turn -/

/-- The motors that can be turning when the robot thread is at a place. -/
def mayTurn : Option RobotPc → MotorId → Bool
  | some .driveB, .A => true
  | some .restB, .B => true
  | some .checkDistance, _ | some .turnTest, _ | some .turnA, _ | some .turnB, _ => true
  | some .pause, _ | some .restA, _ => true
  | _, _ => false

/-- The last command to a motor that cannot be turning was to stop. -/
def Rested (pc : Option RobotPc) (tr : List Event) : Prop :=
  ∀ m, mayTurn pc m = false → (commandsTo m tr).getLastD 0 = 0

section

variable {pc pc' : Option RobotPc} {tr : List Event}

theorem commandsTo_speed (m : MotorId) (tr : List Event) (v : ℚ) :
    commandsTo m (tr ++ [.speed m v]) = commandsTo m tr ++ [v] := by
  simp [commandsTo, Event.command]

theorem commandsTo_speed_of_ne {m m' : MotorId} (h : m' ≠ m) (tr : List Event) (v : ℚ) :
    commandsTo m' (tr ++ [.speed m v]) = commandsTo m' tr := by
  simp [commandsTo, Event.command, h.symm]

theorem commandsTo_silent {e : Event} (he : ∀ m, e.command m = none) (m : MotorId)
    (tr : List Event) : commandsTo m (tr ++ [e]) = commandsTo m tr := by
  rw [commandsTo_append]
  simp [commandsTo, he]

/-- A step that gives no command may only lead to where as many motors can turn. -/
theorem Rested.silent (h : Rested pc tr) {e : Event} (he : ∀ m, e.command m = none)
    (hpc : ∀ m, mayTurn pc' m = false → mayTurn pc m = false) : Rested pc' (tr ++ [e]) := by
  intro m hm
  rw [commandsTo_silent he]
  exact h m (hpc m hm)

theorem Rested.speed (h : Rested pc tr) {m : MotorId} {v : ℚ} (hv : mayTurn pc' m = false → v = 0)
    (hpc : ∀ m', m' ≠ m → mayTurn pc' m' = false → mayTurn pc m' = false) :
    Rested pc' (tr ++ [.speed m v]) := by
  intro m' hm
  by_cases heq : m' = m
  · subst heq
    rw [commandsTo_speed, List.getLastD_concat]
    exact hv hm
  · rw [commandsTo_speed_of_ne heq]
    exact h m' (hpc m' heq hm)

/-- What `main` does makes no motor turn. -/
theorem Rested.quiet (h : Rested pc tr) {es : List Event} (hes : ∀ e ∈ es, e.isQuiet = true) :
    Rested pc (tr ++ es) := by
  induction es generalizing tr with
  | nil => rwa [List.append_nil]
  | cons e es ih =>
    obtain ⟨he, hrest⟩ := List.forall_mem_cons.mp hes
    rw [List.append_cons]
    refine ih ?_ hrest
    cases e with
    | speed m v =>
      have hv : v = 0 := of_decide_eq_true he
      exact h.speed (fun _ => hv) fun _ _ hm => hm
    | _ => exact h.silent (fun _ => rfl) fun _ hm => hm

end

/-- A step of the robot thread, place by place. -/
theorem Rested.robotStep {pc : RobotPc} {tr : List Event} (h : Rested (some pc) tr)
    (i : RobotSamples) : Rested (robotStep pc i).1 (tr ++ (robotStep pc i).2) := by
  cases pc with
  | outerTest | sense | turnTest =>
    simp only [Firmware.robotStep, List.append_nil]
    split
    · exact fun m hm => h m (by cases m <;> first | rfl | cases hm)
    · exact fun m hm => h m (by cases m <;> first | rfl | cases hm)
  | startUpdates | startTimer | checkDistance | settle | pause =>
    exact h.silent (fun _ => rfl) fun m hm => by cases m <;> first | rfl | cases hm
  | driveA | brakeA | turnA | restA | haltA =>
    refine h.speed (fun hm => ?_) fun m hne hm => ?_
    · first | rfl | cases hm
    · cases m with
      | A => exact absurd rfl hne
      | B => first | rfl | cases hm
  | driveB | brakeB | turnB | restB | haltB =>
    refine h.speed (fun hm => ?_) fun m hne hm => ?_
    · first | rfl | cases hm
    · cases m with
      | A => first | rfl | cases hm
      | B => exact absurd rfl hne

/-! ## Every interleaving -/

theorem rested_run (as : List Action) :
    Rested (system.run System.init as).robot (system.trace System.init as) := by
  refine system.history (J := fun _ tr s => Rested s.robot tr) (fun _ _ => rfl) ?_ as
  intro _ tr s a h
  cases a with
  | elapse d => simpa [Machine.next, Machine.out, system, systemStep, System.elapse] using h
  | main i =>
    have hout : Rested s.robot (tr ++ system.out s (.main i)) := by
      by_cases hpc : s.main.pc = .launch
      · simp only [Machine.out, system, systemStep, mainStep, hpc]
        split
        · exact h.silent (fun _ => rfl) fun _ hm => hm
        · rwa [List.append_nil]
      · exact h.quiet (isQuiet_mainStep hpc)
    rcases (main_cases s i).2 with ⟨hsame, -⟩ | ⟨hnone, hstarted, -⟩
    · rwa [hsame]
    · rw [hstarted]
      rw [hnone] at hout
      exact fun m _ => hout m rfl
  | robot distance =>
    cases hpc : s.robot with
    | none =>
      rw [Machine.next, Machine.out, step_robot_of_none hpc, List.append_nil]
      exact h
    | some pc =>
      rw [(next_robot hpc distance).2.1, out_robot hpc]
      rw [hpc] at h
      exact h.robotStep _

/-- In every interleaving a motor is at rest wherever the robot thread cannot have
    made it turn: both of them at the outer test, before and after the loop,
    and while the thread waits for the way to clear. -/
theorem at_rest_unless_mayTurn (as : List Action) (m : MotorId)
    (h : mayTurn (system.run System.init as).robot m = false) :
    ((system.run System.init as).motors m).AtRest := by
  rw [motors_run]
  exact Motor.atRest_obey (rested_run as m h)

/-- The robot has driven once and is back at the outer test. -/
theorem at_rest_at_outer_test :
    let as := firstLaunch ++ List.replicate 9 (.robot 100)
    mayTurn (system.run System.init as).robot .B = false ∧
      ((system.run System.init as).motors .B).AtRest :=
  ⟨by decide +kernel, at_rest_unless_mayTurn _ .B (by decide +kernel)⟩

/-! ## After the first launch -/

/-- `tMotor` runs and is past its limit, and the thread has given its last command to
    turn. -/
structure Expired (s : System) : Prop where
  running : (s.timers .tMotor).running = true
  late : 10 < (s.timers .tMotor).elapsed
  spent : Spent s

theorem Expired.next {s : System} {a : Action} (h : Expired s) (hok : Enabled s a) :
    Expired (system.next s a) ∧ ∀ e ∈ system.out s a, e.drives = false := by
  obtain ⟨hrunning, hcount⟩ := elapsed_next h.running a
  have hpassed : 0 ≤ a.duration := by
    cases a with
    | elapse d => exact hok
    | main i | robot distance => exact le_rfl
  have hlate : 10 < ((system.next s a).timers .tMotor).elapsed := by
    rw [hcount]
    exact h.late.trans_le (le_add_of_nonneg_right hpassed)
  cases a with
  | elapse d => exact ⟨⟨hrunning, hlate, h.spent.of_le rfl (le_elapsed_elapse hok _)⟩, nofun⟩
  | main i =>
    obtain ⟨htimer, hrobot⟩ := main_cases s i
    refine ⟨⟨hrunning, hlate, ?_⟩, fun e he => ?_⟩
    · rcases hrobot with ⟨hsame, -⟩ | ⟨-, hstarted, -⟩
      · exact h.spent.of_le hsame (by rw [htimer])
      · intro pc hpc hmay
        obtain rfl := Option.some.inj (hstarted.symm.trans hpc)
        exact absurd hmay (not_le.mpr hlate)
    · by_cases hpc : s.main.pc = .launch
      · simp only [Machine.out, system, systemStep, mainStep, hpc] at he
        split at he
        · exact List.mem_singleton.mp he ▸ rfl
        · cases he
      · exact drives_of_isQuiet (isQuiet_mainStep hpc e he)
  | robot distance =>
    obtain ⟨pc, hpc⟩ := Option.ne_none_iff_exists'.mp hok.1
    obtain ⟨-, hrobot, htimer⟩ := next_robot hpc distance
    obtain ⟨hout, hnext⟩ := robotStep_of_not_mayDrive (i := s.robotSamples distance) (h.spent pc hpc)
    refine ⟨⟨hrunning, hlate, fun pc' hpc' => ?_⟩, ?_⟩
    · rw [htimer]
      exact hnext pc' (hrobot ▸ hpc')
    · rw [out_robot hpc]
      exact hout

/-- Commands to stop leave a motor at rest. -/
theorem getLastD_commandsTo {es : List Event} (hes : ∀ e ∈ es, e.drives = false) {m : MotorId}
    {tr : List Event} (h : (commandsTo m tr).getLastD 0 = 0) :
    (commandsTo m (tr ++ es)).getLastD 0 = 0 := by
  induction es generalizing tr with
  | nil => rwa [List.append_nil]
  | cons e es ih =>
    obtain ⟨he, hrest⟩ := List.forall_mem_cons.mp hes
    rw [List.append_cons]
    refine ih hrest ?_
    cases e with
    | speed m' v =>
      obtain rfl : v = 0 := by simpa [Event.drives] using he
      by_cases heq : m = m'
      · subst heq
        rw [commandsTo_speed, List.getLastD_concat]
      · rwa [commandsTo_speed_of_ne heq]
    | _ => rwa [commandsTo_silent fun _ => rfl]

/-- The robot moves in its first launch only: once a launch that has started
    `tMotor` has ended, both motors are at rest for ever, however often `main`
    starts the thread again. -/
theorem at_rest_after_first_launch {as bs : List Action}
    (hadm : system.Admits Enabled System.init (as ++ bs))
    (hstarted : .timer .tMotor .start ∈ system.trace System.init as)
    (hended : (system.run System.init as).robot = none) (m : MotorId) :
    ((system.run System.init (as ++ bs)).motors m).AtRest := by
  obtain ⟨hbefore, hafter⟩ := (system.admits_append _ _ _).mp hadm
  have hspending : Spending (system.run System.init as) :=
    system.invariant_of_admits hbefore spending_init fun _ _ h hok => h.step hok
  have hrunning := (running_iff_started as).mpr hstarted
  have hexpired : Expired (system.run System.init as) := by
    refine ⟨hrunning, hspending.passed hrunning (by rw [hended]; rfl), fun pc hpc => ?_⟩
    rw [hended] at hpc
    cases hpc
  have hquiet : ∀ e ∈ system.trace (system.run System.init as) bs, e.drives = false :=
    system.forall_mem_trace_of_admits hafter hexpired fun _ _ h hok => h.next hok
  have hstill := rested_run as m (by rw [hended]; rfl)
  rw [motors_run, Machine.trace_append]
  exact Motor.atRest_obey (getLastD_commandsTo hquiet hstill)

/-- `main` starts the thread a second time, and the thread comes to its end again. -/
theorem at_rest_in_second_launch :
    ((system.run System.init
      (firstLaunch ++ [.robot 100, .elapse 60, .robot 100, .robot 100, .robot 100] ++
        (mainSteps 3 110 ++ List.replicate 5 (.robot 100)))).motors .A).AtRest :=
  at_rest_after_first_launch (by decide +kernel) (by decide +kernel) (by decide +kernel) .A

end Firmware
