-- SUMMARY: The parts and the whole: the disarm loop inside `main`, `main` inside the interleaved system, and what no interleaving does.
import SmartAlarm.Properties.AlarmEpisodes
import SmartAlarm.Properties.ClockSetting
import SmartAlarm.Properties.Standstill

/-!
# How the parts fit together

The disarm loop was studied as a machine of its own, and `main` without the
robot thread beside it. Here the loop is what `main` runs at `disarm`, and
`main` is what the system shows to somebody who watches the alarms. So what the
loop never does, the system never does: nothing switches the alarm off.
-/

namespace Firmware

/-! ## Setting the clock in `main` -/

/-- The pass of `setTime` in which `main` reads the buttons as in `i`. -/
def Inputs.poll (ticks : Nat) (i : Inputs) : TimeDisplay.Poll := ⟨ticks, i.hour, i.minute⟩

/-- While `set` is low, `main` takes the passes of `setTime`, whatever the clock
    shows and counts meanwhile, and calls `set_time` as it does. -/
theorem mainThread_setTime {m : MainState} (hpc : m.pc = .setTime) (r : Nat)
    {is : List (Nat × Inputs)} (hset : ∀ i ∈ is, i.2.set = false) :
    let s := TimeDisplay.setTime.run ⟨m.seconds, r⟩ (is.map fun i => i.2.poll i.1)
    let calls := TimeDisplay.setTime.trace ⟨m.seconds, r⟩ (is.map fun i => i.2.poll i.1)
    mainThread.run m (is.map Prod.snd) = { m with seconds := s.seconds } ∧
      mainThread.trace m (is.map Prod.snd) = calls.map fun e => .setTime e.after := by
  induction is generalizing m r with
  | nil => exact ⟨rfl, rfl⟩
  | cons i is ih =>
    obtain ⟨hlow, hlater⟩ := List.forall_mem_cons.mp hset
    have hstep : ∃ seconds rtc,
        TimeDisplay.setTime.next ⟨m.seconds, r⟩ (i.2.poll i.1) = ⟨seconds, rtc⟩ ∧
        mainThread.next m i.2 = { m with seconds := seconds } ∧
        mainThread.out m i.2 =
          (TimeDisplay.setTime.out ⟨m.seconds, r⟩ (i.2.poll i.1)).map fun e => .setTime e.after := by
      rcases hpoll : TimeDisplay.setTimePoll m.seconds i.2.hour i.2.minute with ⟨seconds, _ | value⟩
      · exact ⟨seconds, r + i.1, by simp [Machine.next, Machine.out, mainThread, mainStep,
          TimeDisplay.setTime, Inputs.poll, hpc, hlow, hpoll]⟩
      · exact ⟨seconds, value, by simp [Machine.next, Machine.out, mainThread, mainStep,
          TimeDisplay.setTime, Inputs.poll, hpc, hlow, hpoll]⟩
    obtain ⟨seconds, rtc, hclock, hnext, hout⟩ := hstep
    have hrest := ih (m := { m with seconds := seconds }) hpc rtc hlater
    simp only [List.map_cons, Machine.run_cons, Machine.trace_cons, hclock, hnext, hout,
      List.map_append]
    exact ⟨hrest.1, congrArg _ hrest.2⟩

/-! ## The disarm loop in `main` -/

/-- A pass of the loop is a step of `main`. -/
theorem next_disarm {m : MainState} (hpc : m.pc = .disarm) (hloop : m.globals.inputCount < 4)
    (i : Inputs) :
    mainThread.next m i = { m with globals := disarmLoop.next m.globals i.toSamples } := by
  simp only [Machine.next, mainThread, mainStep, disarmLoop, hpc, hloop, if_true]

theorem out_disarm {m : MainState} (hpc : m.pc = .disarm) (hloop : m.globals.inputCount < 4)
    (i : Inputs) : mainThread.out m i = disarmLoop.out m.globals i.toSamples := by
  simp only [Machine.out, mainThread, mainStep, disarmLoop, hpc, hloop, if_true]

/-- While the loop goes on, `main` takes its passes and emits its events. -/
theorem mainThread_disarm {m : MainState} (hpc : m.pc = .disarm) {is : List Inputs}
    (hloop : ∀ pre i, pre ++ [i] <+: is →
      (disarmLoop.run m.globals (pre.map Inputs.toSamples)).inputCount < 4) :
    mainThread.run m is =
        { m with globals := disarmLoop.run m.globals (is.map Inputs.toSamples) } ∧
      mainThread.trace m is = disarmLoop.trace m.globals (is.map Inputs.toSamples) := by
  induction is generalizing m with
  | nil => exact ⟨rfl, rfl⟩
  | cons i is ih =>
    have hcount : m.globals.inputCount < 4 := hloop [] i ⟨is, rfl⟩
    have hrest := ih (m := { m with globals := disarmLoop.next m.globals i.toSamples }) hpc
      fun pre j hpre => hloop (i :: pre) j (List.prefix_cons_inj i |>.mpr hpre)
    rw [Machine.run_cons, Machine.trace_cons, next_disarm hpc hcount, out_disarm hpc hcount,
      hrest.1, hrest.2]
    exact ⟨rfl, rfl⟩

/-- Once the four letters are in, the next step leaves the branch. -/
theorem mainThread_leave {m : MainState} (hpc : m.pc = .disarm) (hdone : ¬ m.globals.inputCount < 4)
    (i : Inputs) : mainThread.step m i = ({ m with pc := .top }, [.leave]) := by
  simp only [mainThread, mainStep, hpc, hdone, if_false]

/-! ## `main` in the system -/

/-- The inputs that an action gives to `main`. -/
def Action.mainInputs (s : System) : Action → List Inputs
  | .main i => [s.inputs i]
  | _       => []

/-- The inputs that `main` gets in an interleaving. -/
def mainInputs (s : System) (as : List Action) : List Inputs :=
  system.feed (fun s a => a.mainInputs s) s as

theorem run_mainInputs (s : System) (a : Action) :
    mainThread.run s.main (a.mainInputs s) = (system.next s a).main := by
  cases a with
  | elapse d => rfl
  | main i => simp [Action.mainInputs, Machine.next, system, systemStep, mainThread]
  | robot distance =>
    cases hpc : s.robot with
    | none =>
      rw [Machine.next, step_robot_of_none hpc]
      rfl
    | some pc => exact (next_robot hpc distance).1.symm

/-- Nothing that the robot thread does is an observation of `main`. -/
theorem foldl_observe_robotStep (pc : RobotPc) (i : RobotSamples) (past : List Alarm) :
    (robotStep pc i).2.foldl observe past = past := by
  cases pc <;> rfl

theorem foldl_observe_mainInputs (s : System) (a : Action) (past : List Alarm) :
    (mainThread.trace s.main (a.mainInputs s)).foldl observe past =
      (system.out s a).foldl observe past := by
  cases a with
  | elapse d => rfl
  | main i => simp [Action.mainInputs, Machine.out, system, systemStep, mainThread]
  | robot distance =>
    cases hpc : s.robot with
    | none =>
      rw [Machine.out, step_robot_of_none hpc]
      rfl
    | some pc => rw [out_robot hpc, foldl_observe_robotStep]; rfl

/-- In every interleaving `main` runs as it does alone, on the inputs that it gets. -/
theorem run_system_main (as : List Action) :
    (system.run System.init as).main =
      mainThread.run MainState.init (mainInputs System.init as) :=
  (system.run_feed mainThread run_mainInputs System.init as).symm

/-- In every interleaving the alarms are those of `main` alone. -/
theorem alarms_system (as : List Action) :
    alarms (system.trace System.init as) =
      alarms (mainThread.trace MainState.init (mainInputs System.init as)) :=
  (system.foldl_trace_feed mainThread run_mainInputs foldl_observe_mainInputs System.init as []).symm

/-! ## The robot thread in the system -/

/-- What the robot thread finds on `tMotor`. -/
def Action.robotReadings (s : System) : Action → List ℚ
  | .robot distance => [(s.robotSamples distance).tMotor]
  | _               => []

/-- What the robot thread does. -/
def Action.robotEvents (s : System) : Action → List Event
  | .robot distance => system.out s (.robot distance)
  | _               => []

/-- The distance is of no account where it is not read. -/
theorem robotStep_of_not_reads {pc : RobotPc} (h : pc.reads = false) (t : ℚ) (d d' : Int) :
    robotStep pc ⟨t, d⟩ = robotStep pc ⟨t, d'⟩ := by
  cases pc <;> first | rfl | cases h

/-- A step of the thread in the system, for a suitable next distance. -/
theorem exists_step_robotMoveThread {s : System} {pc : RobotPc} (hpc : s.robot = some pc)
    (distance : Int) (v : Nat → Int) :
    ∃ w, robotMoveThread.step ⟨s.robot, w⟩ (s.robotSamples distance).tMotor =
      (⟨(system.next s (.robot distance)).robot, v⟩, system.out s (.robot distance)) := by
  rw [(next_robot hpc distance).2.1, out_robot hpc, hpc]
  cases hreads : pc.reads with
  | true =>
    refine ⟨fun k => if k = 0 then distance else v (k - 1), ?_⟩
    simp [robotMoveThread, hreads, System.robotSamples]
  | false =>
    refine ⟨v, ?_⟩
    simp only [robotMoveThread, hreads, System.robotSamples, Bool.false_eq_true, if_false]
    rw [robotStep_of_not_reads hreads _ (v 0) distance]

/-- In every interleaving, as long as there is a robot thread, it runs as it does
    alone, for some sequence of distances. -/
theorem run_system_robot {s : System} {as : List Action}
    (halive : system.Admits (fun t _ => t.robot ≠ none) s as) (v : Nat → Int) :
    ∃ w, robotMoveThread.run ⟨s.robot, w⟩ (system.feed (fun t a => a.robotReadings t) s as) =
        ⟨(system.run s as).robot, v⟩ ∧
      robotMoveThread.trace ⟨s.robot, w⟩ (system.feed (fun t a => a.robotReadings t) s as) =
        system.feed (fun t a => a.robotEvents t) s as := by
  induction as generalizing s with
  | nil => exact ⟨v, rfl, rfl⟩
  | cons a as ih =>
    obtain ⟨w, hrun, htrace⟩ := ih halive.2
    cases a with
    | elapse d => exact ⟨w, hrun, htrace⟩
    | main i =>
      have hsame : (system.next s (.main i)).robot = s.robot := by
        rcases (main_cases s i).2 with ⟨hsame, -⟩ | ⟨hnone, -⟩
        · exact hsame
        · exact absurd hnone halive.1
      rw [hsame] at hrun htrace
      exact ⟨w, hrun, htrace⟩
    | robot distance =>
      obtain ⟨pc, hpc⟩ := Option.ne_none_iff_exists'.mp halive.1
      obtain ⟨w', hstep⟩ := exists_step_robotMoveThread hpc distance w
      refine ⟨w', ?_, ?_⟩
      · rw [Machine.feed, Action.robotReadings, List.singleton_append, Machine.run_cons,
          Machine.next, hstep]
        exact hrun
      · rw [Machine.feed, Machine.feed, Action.robotReadings, List.singleton_append,
          Machine.trace_cons, Machine.next, Machine.out, hstep, htrace]
        rfl

/-! ## The alarm is never switched off -/

/-- The two counters of `main` agree, and the disarm loop works on a pattern. -/
structure Counting (m : MainState) : Prop where
  ready : m.globals.game.Ready
  matched : m.globals.matched = m.globals.inputCount
  pattern : m.pc = .rearm ∨ m.pc = .disarm →
    ∃ p : LedSequence.Pattern, m.globals.ledColorSeq = p.letters

/-- A call that is to end the alarm. -/
def Event.turnsOff : Event → Bool
  | .turnOffSpeaker | .turnOffColor => true
  | _                               => false

theorem counting_init : Counting MainState.init := by
  refine ⟨LedSequence.Game.ready_init, rfl, ?_⟩
  rintro (h | h) <;> cases h

/-- At `disarm`: a pass of the loop counts both counters up or none, and the
    branch is left without a call that ends the alarm. -/
theorem Counting.disarm {m : MainState} (h : Counting m) (hpc : m.pc = .disarm) (i : Inputs) :
    Counting (mainThread.next m i) ∧ ∀ e ∈ mainThread.out m i, e.turnsOff = false := by
  have hready := ready_mainThread h.ready i
  obtain ⟨p, hp⟩ := h.pattern (.inr hpc)
  by_cases hloop : m.globals.inputCount < 4
  · have hagree : CountersAgree p m.globals := ⟨hp, h.matched⟩
    obtain ⟨hnext, hout⟩ := hagree.step i.toSamples
    rw [next_disarm hpc hloop] at hready ⊢
    rw [out_disarm hpc hloop]
    refine ⟨⟨hready, hnext.matched, fun _ => ⟨p, hnext.pattern⟩⟩, fun e he => ?_⟩
    obtain ⟨hspeaker, hcolor⟩ := hout e he
    cases e <;> first | rfl | exact absurd rfl hspeaker | exact absurd rfl hcolor
  · simp only [Machine.next, Machine.out, mainThread_leave hpc hloop] at hready ⊢
    refine ⟨⟨hready, h.matched, ?_⟩, by simp [Event.turnsOff]⟩
    rintro (h | h) <;> cases h

theorem Counting.step {m : MainState} (h : Counting m) (i : Inputs) :
    Counting (mainThread.next m i) ∧ ∀ e ∈ mainThread.out m i, e.turnsOff = false := by
  have hready := ready_mainThread h.ready i
  cases hpc : m.pc with
  | disarm => exact h.disarm hpc i
  | select =>
    refine ⟨⟨hready, ?_, fun _ => ?_⟩, fun e he => ?_⟩
    · simpa [Machine.next, mainThread, mainStep, selectStep, hpc] using h.matched
    · refine ⟨LedSequence.selectedPattern i.rand, ?_⟩
      simpa [Machine.next, mainThread, mainStep, selectStep, hpc] using
        LedSequence.ledSelect_pattern i.rand h.ready
    · simp only [Machine.out, mainThread, mainStep, hpc, selectStep, List.mem_cons,
        List.mem_map] at he
      rcases he with rfl | ⟨l, -, rfl⟩ <;> rfl
  | rearm =>
    have hpattern := h.pattern (.inl hpc)
    simp only [Machine.next, Machine.out, mainThread, mainStep, hpc] at hready ⊢
    exact ⟨⟨hready, h.matched, fun _ => hpattern⟩, by simp [restart, Event.turnsOff]⟩
  | setTime =>
    by_cases hset : i.set = true
    · simp only [Machine.next, Machine.out, mainThread, mainStep, hpc, hset, if_true] at hready ⊢
      exact ⟨⟨hready, h.matched, by simp⟩, by simp⟩
    · simp only [Machine.next, Machine.out, mainThread, mainStep, hpc, hset, if_false,
        Bool.false_eq_true] at hready ⊢
      refine ⟨⟨hready, h.matched, by simp⟩, fun e he => ?_⟩
      simp only [Option.mem_toList, Option.map_eq_some_iff] at he
      obtain ⟨n, -, rfl⟩ := he
      rfl
  | compare =>
    by_cases heq : m.globals.currentAlarmTime = m.globals.currentTime
    · simp only [Machine.next, Machine.out, mainThread, mainStep, hpc, heq, if_true] at hready ⊢
      exact ⟨⟨hready, h.matched, by simp⟩, by simp [Event.turnsOff]⟩
    · simp only [Machine.next, Machine.out, mainThread, mainStep, hpc, heq, if_false] at hready ⊢
      exact ⟨⟨hready, h.matched, by simp⟩, by simp [Event.turnsOff]⟩
  | launch =>
    simp only [Machine.next, Machine.out, mainThread, mainStep, hpc] at hready ⊢
    refine ⟨⟨hready, h.matched, by simp⟩, ?_⟩
    split <;> simp [Event.turnsOff]
  | startSpeaker | startLED | top | stopA | stopB | ring =>
    simp only [Machine.next, Machine.out, mainThread, mainStep, hpc] at hready ⊢
    exact ⟨⟨hready, h.matched, by simp [topStep]⟩, by simp [Event.turnsOff]⟩

/-- Neither speaker nor lights are ever switched off, in any interleaving. -/
theorem never_turned_off (as : List Action) :
    ∀ e ∈ system.trace System.init as, e.turnsOff = false := by
  refine system.forall_mem_trace (I := fun s => Counting s.main) counting_init ?_ as
  intro s a h
  cases a with
  | elapse d => exact ⟨h, by simp [Machine.out, system, systemStep]⟩
  | main i =>
    obtain ⟨hnext, hout⟩ := h.step (s.inputs i)
    refine ⟨?_, hout⟩
    simpa [Machine.next, system, systemStep, mainThread] using hnext
  | robot distance =>
    cases hpc : s.robot with
    | none =>
      rw [Machine.next, Machine.out, step_robot_of_none hpc]
      exact ⟨h, by simp⟩
    | some pc =>
      refine ⟨(next_robot hpc distance).1 ▸ h, ?_⟩
      rw [out_robot hpc]
      cases pc <;> simp [robotStep, Event.turnsOff]

/-- `main` leaves its first alarm without a call to turn it off. -/
theorem never_turned_off_first_alarm :
    Event.leave ∈ system.trace System.init (firstAlarm.map .main) ∧ Event.leave.turnsOff = false :=
  ⟨by decide +kernel, never_turned_off (firstAlarm.map .main) .leave (by decide +kernel)⟩

end Firmware
