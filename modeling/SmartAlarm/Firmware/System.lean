-- SUMMARY: The running system: `main` and the robot thread interleaved over shared timers and motors.
import SmartAlarm.Firmware.Main
import SmartAlarm.Firmware.Motordriver
import SmartAlarm.Firmware.RobotMove

/-!
# The system

Both threads run on one processor and share the globals, the timers and the
motors. An action is a step of one thread or the passing of time, so a list of
actions is an interleaving. Of the RTOS the model has that `thread.start` begins
the robot thread if none is running and is refused otherwise, and that a thread
in a wait takes no step.
-/

namespace Firmware

/-! ## Timers -/

/-- mbed's `Timer`: it counts while it runs, and only `reset` takes it back to 0.
    Its `read` is documented as the time passed. The microseconds are an `int` there,
    so this holds for the first 2^31 of them, some 35 minutes. -/
structure Timer where
  running : Bool
  elapsed : ℚ

def Timer.init : Timer := ⟨false, 0⟩

def Timer.perform (t : Timer) : TimerOp → Timer
  | .start => { t with running := true }
  | .stop => { t with running := false }
  | .reset => { t with elapsed := 0 }

def Timer.elapse (d : ℚ) (t : Timer) : Timer :=
  if t.running then { t with elapsed := t.elapsed + d } else t

/-! ## State and actions -/

structure System where
  main : MainState
  /-- What is left of the wait that `main` is in, if it is positive. -/
  mainWait : ℚ
  /-- The robot thread, if it is running. -/
  robot : Option RobotPc
  robotWait : ℚ
  timers : TimerId → Timer
  motors : MotorId → Motor

/-- Power-on. -/
def System.init : System where
  main := MainState.init
  mainWait := 0
  robot := none
  robotWait := 0
  timers := fun _ => Timer.init
  motors := fun _ => Motor.init

inductive Action where
  /-- Time passes. -/
  | elapse (d : ℚ)
  /-- A step of `main`. The timers in `i` are replaced by those of the system. -/
  | main (i : Inputs)
  /-- A step of the robot thread, with the distance last measured. -/
  | robot (distance : Int)

/-- How long an event keeps its thread waiting, in seconds. -/
def Event.delay : Event → ℚ
  | .wait s => s
  | .threadWait ms => ms / 1000
  | .lamp (.wait s) => s
  | _ => 0

/-- What an event does to the state that the threads share. -/
def perform (s : System) : Event → System
  | .speed m v =>
    { s with motors := Function.update s.motors m ((s.motors m).speed v).1 }
  | .timer t op => { s with timers := Function.update s.timers t ((s.timers t).perform op) }
  | .threadStart =>
    match s.robot with
    | none => { s with robot := some .startUpdates, robotWait := 0 }
    | some _ => s
  | _ => s

def System.elapse (s : System) (d : ℚ) : System :=
  { s with
    mainWait := s.mainWait - d
    robotWait := s.robotWait - d
    timers := fun t => (s.timers t).elapse d }

/-- What `main` reads when the pins are as in `i`. -/
def System.inputs (s : System) (i : Inputs) : Inputs :=
  { i with tSpeaker := (s.timers .tSpeaker).elapsed, tLED := (s.timers .tLED).elapsed }

def System.robotSamples (s : System) (distance : Int) : RobotSamples :=
  { tMotor := (s.timers .tMotor).elapsed, distance := distance }

def systemStep (s : System) : Action → System × List Event
  | .elapse d => (s.elapse d, [])
  | .main i =>
    let (main, events) := mainStep s.main (s.inputs i)
    (events.foldl perform { s with main := main, mainWait := (events.map Event.delay).sum }, events)
  | .robot distance =>
    match s.robot with
    | none => (s, [])
    | some pc =>
      let (robot, events) := robotStep pc (s.robotSamples distance)
      (events.foldl perform { s with robot := robot, robotWait := (events.map Event.delay).sum },
        events)

def system : Machine System Action Event := ⟨systemStep⟩

/-- The actions that can happen: time does not run backwards, and a thread that
    waits or does not exist takes no step. -/
def Enabled (s : System) : Action → Prop
  | .elapse d => 0 ≤ d
  | .main _ => s.mainWait ≤ 0
  | .robot _ => s.robot ≠ none ∧ s.robotWait ≤ 0

instance decidableEnabled : ∀ (s : System) (a : Action), Decidable (Enabled s a)
  | _, .elapse d => inferInstanceAs (Decidable (0 ≤ d))
  | s, .main _ => inferInstanceAs (Decidable (s.mainWait ≤ 0))
  | s, .robot _ => inferInstanceAs (Decidable (s.robot ≠ none ∧ s.robotWait ≤ 0))

end Firmware
