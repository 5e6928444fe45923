-- SUMMARY: `robotMove_thread`: driving while the way is free, turning while it is not, for ten seconds of `tMotor`.
import SmartAlarm.Firmware.Disarm

/-!
# The robot thread

One step is one statement. A read of `tMotor` or of the distance is a step of
its own with the branch it decides, and so is every command to a motor, since
`main` may run between any two of them.
-/

namespace Firmware

/-- Where the thread is. -/
inductive RobotPc where
  /-- `mu.startUpdates()` -/
  | startUpdates
  /-- `tMotor.start()` -/
  | startTimer
  /-- `while (tMotor.read() <= 10)` -/
  | outerTest
  /-- `if (mu.getCurrentDistance() > 3)` -/
  | sense
  /-- `A.speed(-1)` -/
  | driveA
  /-- `B.speed(-1)` -/
  | driveB
  /-- `mu.checkDistance()` -/
  | checkDistance
  /-- `A.speed(0)` before the turn -/
  | brakeA
  /-- `B.speed(0)` before the turn -/
  | brakeB
  /-- `wait(0.3)` -/
  | settle
  /-- `while (mu.getCurrentDistance() <= 3)` -/
  | turnTest
  /-- `A.speed(1)` -/
  | turnA
  /-- `B.speed(-1)` in the turn -/
  | turnB
  /-- `Thread::wait(0.1)`, whose argument is a whole number of milliseconds -/
  | pause
  /-- `A.speed(0)` at the end of the loop body -/
  | restA
  /-- `B.speed(0)` at the end of the loop body -/
  | restB
  /-- `A.speed(0)` after the loop -/
  | haltA
  /-- `B.speed(0)` after the loop -/
  | haltB
deriving DecidableEq, Repr

/-- What a step of the thread may read. -/
structure RobotSamples where
  tMotor : ℚ
  distance : Int

/-- One step. `none` is the end of the thread. -/
def robotStep (pc : RobotPc) (i : RobotSamples) : Option RobotPc × List Event :=
  match pc with
  | .startUpdates => (some .startTimer, [.startUpdates])
  | .startTimer => (some .outerTest, [.timer .tMotor .start])
  | .outerTest => (some (if i.tMotor ≤ 10 then .sense else .haltA), [])
  | .sense => (some (if 3 < i.distance then .driveA else .brakeA), [])
  | .driveA => (some .driveB, [.speed .A (-1)])
  | .driveB => (some .checkDistance, [.speed .B (-1)])
  | .checkDistance => (some .pause, [.checkDistance])
  | .brakeA => (some .brakeB, [.speed .A 0])
  | .brakeB => (some .settle, [.speed .B 0])
  | .settle => (some .turnTest, [.wait 0.3])
  | .turnTest => (some (if i.distance ≤ 3 then .turnA else .pause), [])
  | .turnA => (some .turnB, [.speed .A 1])
  | .turnB => (some .turnTest, [.speed .B (-1)])
  | .pause => (some .restA, [.threadWait 0])
  | .restA => (some .restB, [.speed .A 0])
  | .restB => (some .outerTest, [.speed .B 0])
  | .haltA => (some .haltB, [.speed .A 0])
  | .haltB => (none, [.speed .B 0])

/-! ## One invocation -/

/-- `getCurrentDistance` is called here. -/
def RobotPc.reads : RobotPc → Bool
  | .sense | .turnTest => true
  | _                  => false

/-- A call of `robotMove_thread`: where it is, if it has not returned, and the
    values that `getCurrentDistance` is going to return. -/
structure Invocation where
  pc : Option RobotPc
  distances : Nat → Int

/-- `robotMove_thread`. The input is what `tMotor` shows at the step. -/
def robotMoveThread : Machine Invocation ℚ Event where
  step s tMotor :=
    match s.pc with
    | none => (s, [])
    | some pc =>
      let (pc', events) := robotStep pc ⟨tMotor, s.distances 0⟩
      (⟨pc', if pc.reads then fun k => s.distances (k + 1) else s.distances⟩, events)

end Firmware
