-- SUMMARY: When the robot stops: after its ten seconds the thread is done within one turn exactly if the distance lets it out.
import SmartAlarm.Firmware.RobotMove
import Mathlib.Tactic.Linarith

/-!
# The end of an invocation

Only the outer loop of `robotMove_thread` looks at `tMotor`. Once the ten seconds
are over, the thread still has to come back to that test, and on its way is the
inner loop, which turns until the distance exceeds 3. What the thread does from a
place on is read off its next step, as in a calculus of weakest preconditions.
-/

namespace Firmware

/-! ## Commands still to come -/

/-- A command to turn motor `m`. -/
def Event.turns (m : MotorId) : Event → Bool
  | .speed m' v => m' = m ∧ v ≠ 0
  | _           => false

/-- How many of the events turn motor `m`. -/
def turns (m : MotorId) (events : List Event) : Nat := events.countP (Event.turns m)

/-- With `tMotor` past its limit, the invocation does exactly this and returns. -/
def Finishes (s : Invocation) (events : List Event) : Prop :=
  robotMoveThread.Ends (fun t => 10 < t) (fun s => s.pc = none) s events

/-- In that time it turns the motors at most `a` and `b` times. -/
def Stops (a b : Nat) (s : Invocation) : Prop :=
  ∃ events, Finishes s events ∧ turns .A events ≤ a ∧ turns .B events ≤ b

section

variable {a b : Nat} {pc : RobotPc} {v : Nat → Int} {s' : Invocation} {now : List Event}

theorem exists_late : ∃ t : ℚ, 10 < t := ⟨11, by norm_num⟩

theorem stops_returned : Stops a b ⟨none, v⟩ := by
  have hends : Finishes ⟨none, v⟩ [] ↔ [] = [] :=
    robotMoveThread.ends_of_done exists_late rfl fun _ => rfl
  exact ⟨[], hends.mpr rfl, Nat.zero_le a, Nat.zero_le b⟩

/-- The thread stops in time if its next step leaves room for what follows. -/
theorem stops_step (h : ∀ t, 10 < t → robotMoveThread.step ⟨some pc, v⟩ t = (s', now)) :
    Stops a b ⟨some pc, v⟩ ↔
      turns .A now ≤ a ∧ turns .B now ≤ b ∧ Stops (a - turns .A now) (b - turns .B now) s' := by
  have hnext (events : List Event) :
      Finishes ⟨some pc, v⟩ events ↔ ∃ rest, events = now ++ rest ∧ Finishes s' rest :=
    robotMoveThread.ends_iff_next exists_late (by simp) h
  have hcount (m : MotorId) (rest : List Event) :
      turns m (now ++ rest) = turns m now + turns m rest := List.countP_append
  constructor
  · rintro ⟨events, hevents, hA, hB⟩
    obtain ⟨rest, rfl, hrest⟩ := (hnext events).mp hevents
    rw [hcount] at hA hB
    exact ⟨by omega, by omega, rest, hrest, by omega, by omega⟩
  · rintro ⟨hA, hB, rest, hrest, hA', hB'⟩
    refine ⟨now ++ rest, (hnext _).mpr ⟨rest, rfl, hrest⟩, ?_, ?_⟩ <;> rw [hcount] <;> omega

/-- A step that turns nothing. -/
theorem stops_quiet (h : ∀ t, 10 < t → robotMoveThread.step ⟨some pc, v⟩ t = (s', now))
    (hquiet : turns .A now = 0 ∧ turns .B now = 0) : Stops a b ⟨some pc, v⟩ ↔ Stops a b s' := by
  rw [stops_step h]
  simp [hquiet]

/-! ## Place by place -/

theorem stops_haltB : Stops a b ⟨some .haltB, v⟩ :=
  (stops_quiet (fun _ _ => rfl) (by decide)).mpr stops_returned

theorem stops_haltA : Stops a b ⟨some .haltA, v⟩ :=
  (stops_quiet (fun _ _ => rfl) (by decide)).mpr stops_haltB

/-- The test of the outer loop is where the ten seconds are noticed. -/
theorem stops_outerTest : Stops a b ⟨some .outerTest, v⟩ := by
  have hstep (t : ℚ) (ht : 10 < t) :
      robotMoveThread.step ⟨some .outerTest, v⟩ t = (⟨some .haltA, v⟩, []) := by
    have hlate : ¬ t ≤ 10 := not_le.mpr ht
    simp [robotMoveThread, robotStep, RobotPc.reads, hlate]
  exact (stops_quiet hstep (by decide)).mpr stops_haltA

theorem stops_startTimer : Stops a b ⟨some .startTimer, v⟩ :=
  (stops_quiet (fun _ _ => rfl) (by decide)).mpr stops_outerTest

theorem stops_startUpdates : Stops a b ⟨some .startUpdates, v⟩ :=
  (stops_quiet (fun _ _ => rfl) (by decide)).mpr stops_startTimer

theorem stops_restB : Stops a b ⟨some .restB, v⟩ :=
  (stops_quiet (fun _ _ => rfl) (by decide)).mpr stops_outerTest

theorem stops_restA : Stops a b ⟨some .restA, v⟩ :=
  (stops_quiet (fun _ _ => rfl) (by decide)).mpr stops_restB

theorem stops_pause : Stops a b ⟨some .pause, v⟩ :=
  (stops_quiet (fun _ _ => rfl) (by decide)).mpr stops_restA

theorem stops_checkDistance : Stops a b ⟨some .checkDistance, v⟩ :=
  (stops_quiet (fun _ _ => rfl) (by decide)).mpr stops_pause

theorem stops_driveB (hb : 1 ≤ b) : Stops a b ⟨some .driveB, v⟩ := by
  rw [stops_step fun _ _ => rfl]
  exact ⟨Nat.zero_le a, hb, stops_checkDistance⟩

theorem stops_driveA (ha : 1 ≤ a) (hb : 1 ≤ b) : Stops a b ⟨some .driveA, v⟩ := by
  rw [stops_step fun _ _ => rfl]
  exact ⟨ha, Nat.zero_le b, stops_driveB hb⟩

theorem stops_turnB_iff :
    Stops a b ⟨some .turnB, v⟩ ↔ 1 ≤ b ∧ Stops a (b - 1) ⟨some .turnTest, v⟩ := by
  rw [stops_step fun _ _ => rfl]
  exact ⟨fun h => h.2, fun h => ⟨Nat.zero_le a, h⟩⟩

theorem stops_turnA_iff :
    Stops a b ⟨some .turnA, v⟩ ↔ 1 ≤ a ∧ Stops (a - 1) b ⟨some .turnB, v⟩ := by
  rw [stops_step fun _ _ => rfl]
  exact ⟨fun h => ⟨h.1, h.2.2⟩, fun h => ⟨h.1, Nat.zero_le b, h.2⟩⟩

theorem stops_turnTest_of_free (h : 3 < v 0) : Stops a b ⟨some .turnTest, v⟩ := by
  have hstep (t : ℚ) (_ : 10 < t) :
      robotMoveThread.step ⟨some .turnTest, v⟩ t = (⟨some .pause, fun k => v (k + 1)⟩, []) := by
    have hfree : ¬ v 0 ≤ 3 := not_le.mpr h
    simp [robotMoveThread, robotStep, RobotPc.reads, hfree]
  exact (stops_quiet hstep (by decide)).mpr stops_pause

theorem stops_turnTest_of_blocked (h : v 0 ≤ 3) :
    Stops a b ⟨some .turnTest, v⟩ ↔ Stops a b ⟨some .turnA, fun k => v (k + 1)⟩ := by
  have hstep (t : ℚ) (_ : 10 < t) :
      robotMoveThread.step ⟨some .turnTest, v⟩ t = (⟨some .turnA, fun k => v (k + 1)⟩, []) := by
    simp [robotMoveThread, robotStep, RobotPc.reads, h]
  exact stops_quiet hstep (by decide)

/-- The inner loop turns once for each distance up to 3 before the first one above. -/
theorem stops_turnTest_iff :
    Stops a b ⟨some .turnTest, v⟩ ↔ ∃ k, k ≤ a ∧ k ≤ b ∧ 3 < v k := by
  induction a generalizing b v with
  | zero =>
    by_cases h : 3 < v 0
    · exact iff_of_true (stops_turnTest_of_free h) ⟨0, le_rfl, Nat.zero_le b, h⟩
    · rw [stops_turnTest_of_blocked (not_lt.mp h), stops_turnA_iff]
      refine iff_of_false (by omega) ?_
      rintro ⟨k, hk, -, hv⟩
      obtain rfl : k = 0 := by omega
      exact h hv
  | succ a ih =>
    by_cases h : 3 < v 0
    · exact iff_of_true (stops_turnTest_of_free h) ⟨0, Nat.zero_le _, Nat.zero_le b, h⟩
    · rw [stops_turnTest_of_blocked (not_lt.mp h), stops_turnA_iff, stops_turnB_iff,
        Nat.add_sub_cancel, ih]
      constructor
      · rintro ⟨-, hb, k, hka, hkb, hv⟩
        exact ⟨k + 1, by omega, by omega, hv⟩
      · rintro ⟨k, hka, hkb, hv⟩
        cases k with
        | zero => exact absurd hv h
        | succ k => exact ⟨by omega, by omega, k, by omega, by omega, hv⟩

theorem stops_settle_iff : Stops a b ⟨some .settle, v⟩ ↔ Stops a b ⟨some .turnTest, v⟩ :=
  stops_quiet (fun _ _ => rfl) (by decide)

theorem stops_brakeB_iff : Stops a b ⟨some .brakeB, v⟩ ↔ Stops a b ⟨some .turnTest, v⟩ :=
  (stops_quiet (fun _ _ => rfl) (by decide)).trans stops_settle_iff

theorem stops_brakeA_iff : Stops a b ⟨some .brakeA, v⟩ ↔ Stops a b ⟨some .turnTest, v⟩ :=
  (stops_quiet (fun _ _ => rfl) (by decide)).trans stops_brakeB_iff

theorem stops_sense_of_free (h : 3 < v 0) (ha : 1 ≤ a) (hb : 1 ≤ b) :
    Stops a b ⟨some .sense, v⟩ := by
  have hstep (t : ℚ) (_ : 10 < t) :
      robotMoveThread.step ⟨some .sense, v⟩ t = (⟨some .driveA, fun k => v (k + 1)⟩, []) := by
    simp [robotMoveThread, robotStep, RobotPc.reads, h]
  exact (stops_quiet hstep (by decide)).mpr (stops_driveA ha hb)

theorem stops_sense_of_blocked (h : v 0 ≤ 3) :
    Stops a b ⟨some .sense, v⟩ ↔ Stops a b ⟨some .turnTest, fun k => v (k + 1)⟩ := by
  have hstep (t : ℚ) (_ : 10 < t) :
      robotMoveThread.step ⟨some .sense, v⟩ t = (⟨some .brakeA, fun k => v (k + 1)⟩, []) := by
    have hblocked : ¬ 3 < v 0 := not_lt.mpr h
    simp [robotMoveThread, robotStep, RobotPc.reads, hblocked]
  exact (stops_quiet hstep (by decide)).trans stops_brakeA_iff

end

/-! ## Every invocation -/

/-- The start of an invocation to which `getCurrentDistance` returns `v 0`, `v 1` and so on. -/
def Invocation.start (v : Nat → Int) : Invocation := ⟨some .startUpdates, v⟩

/-- The distances let the thread out: of the values that it is going to read, one
    of the next three, two or one is above 3. How many count depends on the place. -/
def FreeInTime (s : Invocation) : Prop :=
  match s.pc with
  | some .sense => 3 < s.distances 0 ∨ 3 < s.distances 1 ∨ 3 < s.distances 2
  | some .brakeA | some .brakeB | some .settle | some .turnTest =>
    3 < s.distances 0 ∨ 3 < s.distances 1
  | some .turnA | some .turnB => 3 < s.distances 0
  | _ => True

/-- Having read the values `pre` from `tMotor`, the invocation is at some place.
    If from there on `tMotor` is past its limit, the thread turns each motor once
    at most, sets both to 0 and returns. -/
def StopsInTime (v : Nat → Int) (pre : List ℚ) : Prop :=
  ∃ events, Finishes (robotMoveThread.run (.start v) pre) events ∧
    (∀ m, turns m events ≤ 1) ∧
    ∃ front, robotMoveThread.trace (.start v) pre ++ events =
      front ++ [.speed .A 0, .speed .B 0]

theorem exists_le_one_iff {p : Nat → Prop} : (∃ k, k ≤ 1 ∧ k ≤ 1 ∧ p k) ↔ p 0 ∨ p 1 := by
  constructor
  · rintro ⟨k, hk, -, hp⟩
    obtain rfl | rfl : k = 0 ∨ k = 1 := by omega
    · exact .inl hp
    · exact .inr hp
  · rintro (hp | hp)
    · exact ⟨0, by omega, by omega, hp⟩
    · exact ⟨1, le_rfl, le_rfl, hp⟩

theorem stops_one_iff (s : Invocation) : Stops 1 1 s ↔ FreeInTime s := by
  obtain ⟨pc, v⟩ := s
  cases pc with
  | none => exact iff_of_true stops_returned trivial
  | some pc =>
    cases pc with
    | startUpdates => exact iff_of_true stops_startUpdates trivial
    | startTimer => exact iff_of_true stops_startTimer trivial
    | outerTest => exact iff_of_true stops_outerTest trivial
    | sense =>
      by_cases h : 3 < v 0
      · exact iff_of_true (stops_sense_of_free h le_rfl le_rfl) (.inl h)
      · rw [stops_sense_of_blocked (not_lt.mp h), stops_turnTest_iff, exists_le_one_iff]
        exact (or_iff_right h).symm
    | driveA => exact iff_of_true (stops_driveA le_rfl le_rfl) trivial
    | driveB => exact iff_of_true (stops_driveB le_rfl) trivial
    | checkDistance => exact iff_of_true stops_checkDistance trivial
    | brakeA => rw [stops_brakeA_iff, stops_turnTest_iff, exists_le_one_iff]; rfl
    | brakeB => rw [stops_brakeB_iff, stops_turnTest_iff, exists_le_one_iff]; rfl
    | settle => rw [stops_settle_iff, stops_turnTest_iff, exists_le_one_iff]; rfl
    | turnTest => rw [stops_turnTest_iff, exists_le_one_iff]; rfl
    | turnA =>
      rw [stops_turnA_iff, stops_turnB_iff, stops_turnTest_iff]
      simp [FreeInTime]
    | turnB =>
      rw [stops_turnB_iff, stops_turnTest_iff]
      simp [FreeInTime]
    | pause => exact iff_of_true stops_pause trivial
    | restA => exact iff_of_true stops_restA trivial
    | restB => exact iff_of_true stops_restB trivial
    | haltA => exact iff_of_true stops_haltA trivial
    | haltB => exact iff_of_true stops_haltB trivial

/-- A thread that has returned has set both motors to 0 last. -/
theorem returned_at_rest (v : Nat → Int) (ts : List ℚ) :
    ((robotMoveThread.run (.start v) ts).pc = some .haltB →
      ∃ front, robotMoveThread.trace (.start v) ts = front ++ [.speed .A 0]) ∧
    ((robotMoveThread.run (.start v) ts).pc = none →
      ∃ front, robotMoveThread.trace (.start v) ts = front ++ [.speed .A 0, .speed .B 0]) := by
  refine robotMoveThread.history (J := fun _ tr s =>
    (s.pc = some .haltB → ∃ front, tr = front ++ [.speed .A 0]) ∧
      (s.pc = none → ∃ front, tr = front ++ [.speed .A 0, .speed .B 0])) ?_ ?_ ts
  · exact ⟨by rintro ⟨⟩, by rintro ⟨⟩⟩
  · rintro _ tr ⟨pc, w⟩ t ⟨hhalt, hreturned⟩
    cases pc with
    | none => simpa [Machine.next, Machine.out, robotMoveThread] using hreturned
    | some pc =>
      cases pc with
      | haltA => exact ⟨fun _ => ⟨tr, rfl⟩, by rintro ⟨⟩⟩
      | haltB =>
        obtain ⟨front, rfl⟩ := hhalt rfl
        refine ⟨by rintro ⟨⟩, fun _ => ⟨front, ?_⟩⟩
        simp [Machine.out, robotMoveThread, robotStep]
      | outerTest | sense | turnTest =>
        simp only [Machine.next, robotMoveThread, robotStep]
        constructor <;> split <;> rintro ⟨⟩
      | _ => exact ⟨by rintro ⟨⟩, by rintro ⟨⟩⟩

/-- For every sequence of distances and every point of the invocation at which
    the ten seconds are over: the thread stops in time, exactly if the distances
    let it out. -/
theorem stops_in_time_iff (v : Nat → Int) (pre : List ℚ) :
    StopsInTime v pre ↔ FreeInTime (robotMoveThread.run (.start v) pre) := by
  rw [← stops_one_iff]
  constructor
  · rintro ⟨events, hfinishes, hturns, -⟩
    exact ⟨events, hfinishes, hturns .A, hturns .B⟩
  · rintro ⟨events, ⟨n, hends⟩, hA, hB⟩
    have hlate : ∀ t ∈ List.replicate n (11 : ℚ), 10 < t := by
      intro t ht
      rw [List.eq_of_mem_replicate ht]
      norm_num
    obtain ⟨hreturned, htrace⟩ := hends _ List.length_replicate hlate
    rw [← Machine.run_append] at hreturned
    obtain ⟨front, hfront⟩ := (returned_at_rest v _).2 hreturned
    rw [Machine.trace_append, htrace] at hfront
    refine ⟨events, ⟨n, hends⟩, fun m => ?_, front, hfront⟩
    cases m with
    | A => exact hA
    | B => exact hB

/-- Something stays before the robot: in the inner loop it turns for ever. -/
theorem turns_for_ever : ¬ ∀ (v : Nat → Int) (pre : List ℚ), StopsInTime v pre := by
  intro h
  obtain ⟨events, hfinishes, hturns, -⟩ := h (fun _ => 0) [0, 0, 0]
  have hstops : Stops 1 1 (robotMoveThread.run (.start fun _ => 0) [0, 0, 0]) :=
    ⟨events, hfinishes, hturns .A, hturns .B⟩
  have hplace : robotMoveThread.run (.start fun _ => 0) [0, 0, 0] =
      ⟨some .sense, fun _ => 0⟩ := by
    simp [Machine.run, Machine.next, robotMoveThread, robotStep, Invocation.start, RobotPc.reads]
  rw [hplace, stops_one_iff] at hstops
  revert hstops
  simp [FreeInTime]

end Firmware
