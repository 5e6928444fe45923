-- SUMMARY: No motor is reversed while it turns, so the interlock of `Motor::speed` never fires.
import SmartAlarm.Lib.Reversals
import SmartAlarm.Properties.Standstill

/-!
# No reversal

Motor A turns both ways, motor B one way only. What the last command to a motor
can have been is a matter of where the robot thread is: `main` only ever adds a
command to stop, which is allowed before and after every other.
-/

/-! ## A motor and its commands -/

namespace Motor

/-- The direction of a command, as `Motor::speed` keeps it. -/
def direction (v : ℚ) : Int := if 0 < v then 1 else if v < 0 then -1 else 0

/-- The motor after a list of calls of `speed`. -/
def obey (m : Motor) (vs : List ℚ) : Motor := vs.foldl (fun m v => (m.speed v).1) m

/-- The branches of `Motor::speed` that switch the motor off instead of reversing it. -/
def Interlocks (m : Motor) (v : ℚ) : Prop := m.sign = 1 ∧ v < 0 ∨ m.sign = -1 ∧ 0 < v

theorem sign_speed (m : Motor) (v : ℚ) : (m.speed v).1.sign = direction v := rfl

theorem sign_obey (vs : List ℚ) : (init.obey vs).sign = direction (vs.getLastD 0) := by
  rcases List.eq_nil_or_concat' vs with rfl | ⟨vs, v, rfl⟩
  · rfl
  · rw [obey, List.foldl_append, List.getLastD_concat]
    exact sign_speed _ v

theorem direction_eq_one_iff (v : ℚ) : direction v = 1 ↔ 0 < v := by
  unfold direction
  split
  · simpa
  · split <;> simp_all

theorem direction_eq_neg_one_iff (v : ℚ) : direction v = -1 ↔ v < 0 := by
  unfold direction
  split
  · rename_i h
    simp [h.le]
  · split <;> simp_all

/-- After a command that is not against it, a command does not meet the interlock. -/
theorem not_interlocks {m : Motor} {u v : ℚ} (hsign : m.sign = direction u) (h : 0 ≤ u * v) :
    ¬ m.Interlocks v := by
  rintro (⟨hone, hv⟩ | ⟨hone, hv⟩)
  · rw [hsign, direction_eq_one_iff] at hone
    exact absurd h (not_le.mpr (mul_neg_of_pos_of_neg hone hv))
  · rw [hsign, direction_eq_neg_one_iff] at hone
    exact absurd h (not_le.mpr (mul_neg_of_neg_of_pos hone hv))

/-- A call that does not meet the interlock returns the magnitude it is given. -/
theorem speed_of_not_interlocks {m : Motor} {u v : ℚ} (hsign : m.sign = direction u)
    (h : ¬ m.Interlocks v) : (m.speed v).2 = |v| := by
  have hmagnitude : (if v < 0 then -v else v) = |v| := by
    split
    · rename_i hv
      exact (abs_of_neg hv).symm
    · rename_i hv
      exact (abs_of_nonneg (not_lt.mp hv)).symm
  have hkept : m.sign = 0 ∨ m.sign = 1 ∨ m.sign = -1 := by
    rw [hsign, direction]
    split
    · exact .inr (.inl rfl)
    · split
      · exact .inr (.inr rfl)
      · exact .inl rfl
  rcases hkept with hzero | hone | hneg
  · simp [speed, hzero, hmagnitude]
  · have hv : ¬ v < 0 := fun hv => h (.inl ⟨hone, hv⟩)
    simp [speed, hone, hv, abs_of_nonneg (not_lt.mp hv)]
  · have hv : ¬ 0 < v := fun hv => h (.inr ⟨hneg, hv⟩)
    simp [speed, hneg, hv, hmagnitude]

end Motor

namespace Firmware

open Reversals

/-! ## The commands in a run -/

/-- The value that an event asks motor `m` for. -/
def Event.command (m : MotorId) : Event → Option ℚ
  | .speed m' v => if m' = m then some v else none
  | _           => none

/-- The commands to motor `m`, oldest first. -/
def commandsTo (m : MotorId) (events : List Event) : List ℚ := events.filterMap (Event.command m)

theorem commandsTo_append (m : MotorId) (es fs : List Event) :
    commandsTo m (es ++ fs) = commandsTo m es ++ commandsTo m fs := List.filterMap_append

/-- A motor changes by its commands only. -/
theorem motors_perform (s : System) (e : Event) (m : MotorId) :
    (perform s e).motors m = (s.motors m).obey (commandsTo m [e]) := by
  cases e with
  | speed m' v =>
    by_cases h : m' = m
    · subst h
      simp [perform, commandsTo, Event.command, Motor.obey]
    · simp [perform, commandsTo, Event.command, Motor.obey, h, Function.update_of_ne (Ne.symm h)]
  | threadStart => cases hrobot : s.robot <;> simp [perform, hrobot] <;> rfl
  | _ => rfl

theorem motors_foldl_perform (es : List Event) (s : System) (m : MotorId) :
    (es.foldl perform s).motors m = (s.motors m).obey (commandsTo m es) := by
  induction es generalizing s with
  | nil => rfl
  | cons e es ih =>
    rw [List.foldl_cons, ih, motors_perform, Motor.obey, Motor.obey, Motor.obey, ← List.foldl_append,
      ← commandsTo_append]
    rfl

theorem motors_next (s : System) (a : Action) (m : MotorId) :
    (system.next s a).motors m = (s.motors m).obey (commandsTo m (system.out s a)) := by
  cases a with
  | elapse d => rfl
  | main i => exact motors_foldl_perform _ _ m
  | robot distance =>
    cases hpc : s.robot with
    | none =>
      rw [Machine.next, Machine.out, step_robot_of_none hpc]
      rfl
    | some pc =>
      simp only [Machine.next, Machine.out, system, systemStep, hpc]
      exact motors_foldl_perform _ _ m

/-- In every run a motor is what its commands have made of it. -/
theorem motors_run (as : List Action) (m : MotorId) :
    (system.run System.init as).motors m =
      Motor.init.obey (commandsTo m (system.trace System.init as)) := by
  refine system.history (J := fun _ tr s => s.motors m = Motor.init.obey (commandsTo m tr)) rfl ?_ as
  intro _ tr s a h
  rw [motors_next, h, commandsTo_append, Motor.obey, Motor.obey, ← List.foldl_append]
  rfl

/-! ## The last command at each place -/

/-- What the last command to a motor can have been when the robot thread is at a place. -/
def Bearing (pc : Option RobotPc) (m : MotorId) (u : ℚ) : Prop :=
  match m, pc with
  | .B, _ => u ≤ 0
  | .A, some .driveB | .A, some .checkDistance => u ≤ 0
  | .A, some .turnTest | .A, some .turnA | .A, some .turnB => 0 ≤ u
  | .A, some .pause | .A, some .restA => True
  | .A, _ => u = 0

/-- A motor that was stopped last can be anywhere. -/
theorem bearing_zero (pc : Option RobotPc) (m : MotorId) : Bearing pc m 0 := by
  unfold Bearing
  split <;> first | exact le_rfl | trivial

/-- The commands so far never flip, and the last ones fit the place of the thread. -/
structure Steered (pc : Option RobotPc) (tr : List Event) : Prop where
  smooth : ∀ m, Smooth (commandsTo m tr)
  bearing : ∀ m, Bearing pc m ((commandsTo m tr).getLastD 0)

section

variable {pc pc' : Option RobotPc} {tr : List Event}

theorem Steered.moved (h : Steered pc tr) (hbearing : ∀ m u, Bearing pc m u → Bearing pc' m u) :
    Steered pc' tr :=
  ⟨h.smooth, fun m => hbearing m _ (h.bearing m)⟩

theorem Steered.silent (h : Steered pc tr) {e : Event} (he : ∀ m, e.command m = none) :
    Steered pc (tr ++ [e]) := by
  have hsame (m : MotorId) : commandsTo m (tr ++ [e]) = commandsTo m tr := by
    rw [commandsTo_append]
    simp [commandsTo, he]
  refine ⟨fun m => ?_, fun m => ?_⟩ <;> rw [hsame]
  · exact h.smooth m
  · exact h.bearing m

/-- A command that is not against any that the place allows as the last one. -/
theorem Steered.speed (h : Steered pc tr) {m : MotorId} {v : ℚ}
    (hlast : ∀ u, Bearing pc m u → 0 ≤ u * v) (hv : Bearing pc' m v)
    (hother : ∀ m', m' ≠ m → ∀ u, Bearing pc m' u → Bearing pc' m' u) :
    Steered pc' (tr ++ [.speed m v]) := by
  have hself : commandsTo m (tr ++ [.speed m v]) = commandsTo m tr ++ [v] := by
    simp [commandsTo, Event.command]
  have hsame (m' : MotorId) (hm : m' ≠ m) :
      commandsTo m' (tr ++ [.speed m v]) = commandsTo m' tr := by
    simp [commandsTo, Event.command, hm.symm]
  refine ⟨fun m' => ?_, fun m' => ?_⟩ <;> by_cases hm : m' = m
  · subst hm
    rw [hself, smooth_concat]
    exact ⟨h.smooth m', hlast _ (h.bearing m')⟩
  · rw [hsame m' hm]
    exact h.smooth m'
  · subst hm
    rwa [hself, List.getLastD_concat]
  · rw [hsame m' hm]
    exact hother m' hm _ (h.bearing m')

/-- A command to stop is never against the last one. -/
theorem Steered.quiet (h : Steered pc tr) {es : List Event} (hes : ∀ e ∈ es, e.isQuiet = true) :
    Steered pc (tr ++ es) := by
  induction es generalizing tr with
  | nil => rwa [List.append_nil]
  | cons e es ih =>
    obtain ⟨he, hrest⟩ := List.forall_mem_cons.mp hes
    rw [List.append_cons]
    refine ih ?_ hrest
    cases e with
    | speed m v =>
      obtain rfl : v = 0 := of_decide_eq_true he
      exact h.speed (fun u _ => (mul_zero u).ge) (bearing_zero pc m) fun _ _ _ hu => hu
    | _ => exact h.silent fun _ => rfl

end

/-- Motor B is the same at every place. -/
theorem bearing_of_ne_A {pc pc' : Option RobotPc} (m : MotorId) (hm : m ≠ .A) (u : ℚ)
    (h : Bearing pc m u) : Bearing pc' m u := by
  cases m with
  | A => exact absurd rfl hm
  | B => exact h

/-- So after a command to B only motor A needs a look. -/
theorem bearing_of_ne_B {pc pc' : Option RobotPc} (hA : ∀ u, Bearing pc .A u → Bearing pc' .A u)
    (m : MotorId) (hm : m ≠ .B) (u : ℚ) (h : Bearing pc m u) : Bearing pc' m u := by
  cases m with
  | A => exact hA u h
  | B => exact absurd rfl hm

theorem bearing_of_A {pc pc' : Option RobotPc} (hA : ∀ u, Bearing pc .A u → Bearing pc' .A u)
    (m : MotorId) (u : ℚ) (h : Bearing pc m u) : Bearing pc' m u := by
  cases m with
  | A => exact hA u h
  | B => exact h

/-- A step of the robot thread, place by place. -/
theorem Steered.robotStep {pc : RobotPc} {tr : List Event} (h : Steered (some pc) tr)
    (i : RobotSamples) : Steered (robotStep pc i).1 (tr ++ (robotStep pc i).2) := by
  have hstop (u : ℚ) : 0 ≤ u * 0 := (mul_zero u).ge
  have hback {u : ℚ} (hu : u ≤ 0) : 0 ≤ u * (-1) := by linarith
  cases pc with
  | startUpdates | startTimer =>
    exact (h.silent fun _ => rfl).moved (bearing_of_A fun _ hu => hu)
  | settle => exact (h.silent fun _ => rfl).moved (bearing_of_A fun _ hu => ge_of_eq hu)
  | checkDistance | pause =>
    exact (h.silent fun _ => rfl).moved (bearing_of_A fun _ _ => trivial)
  | outerTest =>
    simp only [Firmware.robotStep, List.append_nil]
    split <;> exact h.moved (bearing_of_A fun _ hu => hu)
  | sense =>
    simp only [Firmware.robotStep, List.append_nil]
    split <;> exact h.moved (bearing_of_A fun _ hu => hu)
  | turnTest =>
    simp only [Firmware.robotStep, List.append_nil]
    split
    · exact h.moved (bearing_of_A fun _ hu => hu)
    · exact h.moved (bearing_of_A fun _ _ => trivial)
  | driveA =>
    have hlast (u : ℚ) (hu : Bearing (some .driveA) .A u) : 0 ≤ u * (-1) :=
      hback (le_of_eq hu)
    have hv : Bearing (some .driveB) .A (-1) := neg_nonpos.mpr zero_le_one
    exact h.speed hlast hv bearing_of_ne_A
  | turnA =>
    have hlast (u : ℚ) (hu : Bearing (some .turnA) .A u) : 0 ≤ u * 1 := (mul_one u).ge.trans' hu
    have hv : Bearing (some .turnB) .A 1 := zero_le_one
    exact h.speed hlast hv bearing_of_ne_A
  | driveB | turnB =>
    exact h.speed (fun _ => hback) (by simp [Bearing]) (bearing_of_ne_B fun _ hu => hu)
  | brakeA | restA | haltA => exact h.speed (fun u _ => hstop u) (bearing_zero _ _) bearing_of_ne_A
  | brakeB | restB | haltB =>
    exact h.speed (fun u _ => hstop u) (bearing_zero _ _) (bearing_of_ne_B fun _ hu => hu)

/-! ## Every interleaving -/

theorem steered_run (as : List Action) :
    Steered (system.run System.init as).robot (system.trace System.init as) := by
  refine system.history (J := fun _ tr s => Steered s.robot tr) ?_ ?_ as
  · exact ⟨fun _ => .nil, fun m => bearing_zero none m⟩
  · intro _ tr s a h
    cases a with
    | elapse d => simpa [Machine.next, Machine.out, system, systemStep, System.elapse] using h
    | main i =>
      have hout : Steered s.robot (tr ++ system.out s (.main i)) := by
        by_cases hpc : s.main.pc = .launch
        · simp only [Machine.out, system, systemStep, mainStep, hpc]
          split
          · exact h.silent fun _ => rfl
          · rwa [List.append_nil]
        · exact h.quiet (isQuiet_mainStep hpc)
      rcases (main_cases s i).2 with ⟨hsame, -⟩ | ⟨hnone, hstarted, -⟩
      · rwa [hsame]
      · rw [hstarted]
        rw [hnone] at hout
        exact hout.moved (bearing_of_A fun _ hu => hu)
    | robot distance =>
      cases hpc : s.robot with
      | none =>
        rw [Machine.next, Machine.out, step_robot_of_none hpc, List.append_nil]
        exact h
      | some pc =>
        rw [(next_robot hpc distance).2.1, out_robot hpc]
        rw [hpc] at h
        exact h.robotStep _

/-- In every interleaving, a motor is what the calls of `Motor::speed` have made of
    it, between two of opposite sign there is one to stop, and every call passes
    by the interlock and returns the magnitude it was asked for. -/
theorem never_reversed (as : List Action) (m : MotorId) :
    (system.run System.init as).motors m =
        Motor.init.obey (commandsTo m (system.trace System.init as)) ∧
      (∀ pre u mid v post, commandsTo m (system.trace System.init as) =
        pre ++ u :: mid ++ v :: post → u * v < 0 → 0 ∈ mid) ∧
      ∀ pre v post, commandsTo m (system.trace System.init as) = pre ++ v :: post →
        ¬ (Motor.init.obey pre).Interlocks v ∧ ((Motor.init.obey pre).speed v).2 = |v| := by
  have hsmooth := (steered_run as).smooth m
  refine ⟨motors_run as m, fun pre u mid v post heq hflip => ?_, fun pre v post heq => ?_⟩
  · rw [heq] at hsmooth
    exact zero_mem_between hsmooth hflip
  · rw [heq, List.append_cons] at hsmooth
    obtain ⟨-, hlast⟩ := smooth_concat.mp hsmooth.left_of_append
    have hopen := Motor.not_interlocks (Motor.sign_obey pre) hlast
    exact ⟨hopen, Motor.speed_of_not_interlocks (Motor.sign_obey pre) hopen⟩

end Firmware
