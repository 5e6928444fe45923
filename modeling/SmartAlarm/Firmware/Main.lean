-- SUMMARY: `main` as a machine: setting the clock, the polling loop with its start condition, and the alarm branch.
import SmartAlarm.Firmware.AlarmSet
import SmartAlarm.Firmware.TimeDisplay
import SmartAlarm.Firmware.Disarm

/-!
# The main thread

One step of the machine is one statement of `main` that another thread can tell
apart from the next, or one pass of an inner loop. A step that waits ends with
the wait. The inputs are what the step reads from pins, clock, timers and
`rand`. Serial output is left out.
-/

namespace Firmware

open Libc TimeDisplay

/-- `replaceChar`. -/
def replaceChar (str : List Char) (ch1 ch2 : Char) : List Char :=
  str.map fun c => if c = ch1 then ch2 else c

/-- `val` and `val2` of `main`: the text with `':'` turned into `'0'`, read by `atoi`. -/
def encode (time : List Char) : Int := atoi (replaceChar time ':' '0')

/-- The condition on which `main` starts the robot, `abs(val - val2) % 50 == 0`. -/
def startCondition (currentTime currentAlarmTime : List Char) : Bool :=
  (encode currentTime - encode currentAlarmTime).natAbs % 50 = 0

/-- Where `main` is. -/
inductive Pc where
  /-- `timeLCD.setTime()` -/
  | setTime
  /-- `tSpeaker.start()` and the `wait(0.1)` behind the label `Thread` -/
  | startSpeaker
  /-- `tLED.start()` and `mu.startUpdates()` -/
  | startLED
  /-- the top of `while (1)`, up to `result` -/
  | top
  /-- `if (result) thread.start(robotMove_thread)` -/
  | launch
  /-- `if (currentAlarmTime.compare(currentTime) == 0)` -/
  | compare
  /-- `A.speed(0)` -/
  | stopA
  /-- `B.speed(0)` -/
  | stopB
  /-- `speakerPlay.speakerInit()` -/
  | ring
  /-- `ledColorSeq = LedGame.ledSelect()` -/
  | select
  /-- from `currentTime = timeLCD.displayTime()` to `wait(10)` -/
  | rearm
  /-- `while (inputCount < 4)` -/
  | disarm
deriving DecidableEq, Repr

/-- The state of `main`: its locals that live across steps, and the globals. -/
structure MainState where
  pc : Pc
  /-- The local of `setTime`. -/
  seconds : Nat
  /-- What the last `time(NULL)` of the main loop returned. -/
  reading : Nat
  result : Bool
  globals : Globals

def MainState.init : MainState where
  pc := .setTime
  seconds := 0
  reading := 0
  result := false
  globals := Globals.init

/-- What a step of `main` may read. The pins of `setTime` are those of the main
    loop: `hour` and `minute` are also `hourSet` and `minSet`. -/
structure Inputs extends Samples where
  time : Nat
  hour : Bool
  minute : Bool
  set : Bool
  rand : Nat → Nat

/-- The alarm editor's call in a pass of the main loop. -/
def editAlarm (i : Inputs) (alarmTime : List Char) : List Char :=
  if i.hour then AlarmSet.hourSet alarmTime
  else if i.minute then AlarmSet.minuteSet alarmTime
  else alarmTime

/-- The top of the main loop: read clock and alarm, edit the alarm, decide on the robot. -/
def topStep (i : Inputs) (m : MainState) : MainState :=
  let currentTime := displayTime i.time
  let currentAlarmTime := AlarmSet.alarmDisplay m.globals.alarmTime
  { m with
    pc := .launch
    reading := i.time
    result := startCondition currentTime currentAlarmTime
    globals := { m.globals with
      currentTime := currentTime
      currentAlarmTime := currentAlarmTime
      alarmTime := editAlarm i m.globals.alarmTime } }

def selectStep (i : Inputs) (m : MainState) : MainState × List Event :=
  let selected := LedSequence.ledSelect i.rand m.globals.game
  ({ m with
      pc := .rearm
      globals := { m.globals with ledColorSeq := selected.pattern, game := selected.game } },
    .ledSelect selected.pattern :: selected.events.map .lamp)

def mainStep (m : MainState) (i : Inputs) : MainState × List Event :=
  match m.pc with
  | .setTime =>
    if i.set then ({ m with pc := .startSpeaker }, [])
    else
      let (seconds, setting) := setTimePoll m.seconds i.hour i.minute
      ({ m with seconds := seconds }, (setting.map Event.setTime).toList)
  | .startSpeaker => ({ m with pc := .startLED }, [.timer .tSpeaker .start, .wait 0.1])
  | .startLED => ({ m with pc := .top }, [.timer .tLED .start, .startUpdates])
  | .top => (topStep i m, [])
  | .launch => ({ m with pc := .compare }, if m.result then [.threadStart] else [])
  | .compare =>
    if m.globals.currentAlarmTime = m.globals.currentTime then
      ({ m with pc := .stopA }, [.pass m.reading m.globals.currentAlarmTime true])
    else
      ({ m with pc := .top }, [.pass m.reading m.globals.currentAlarmTime false])
  | .stopA => ({ m with pc := .stopB }, [.speed .A 0])
  | .stopB => ({ m with pc := .ring }, [.speed .B 0])
  | .ring => ({ m with pc := .select }, [.speakerInit])
  | .select => selectStep i m
  | .rearm =>
    ({ m with
        pc := .disarm
        globals := { m.globals with currentTime := displayTime i.time } },
      restart .tLED ++ [.wait 10])
  | .disarm =>
    if m.globals.inputCount < 4 then
      let (globals, events) := disarmPass i.toSamples m.globals
      ({ m with globals := globals }, events)
    else ({ m with pc := .top }, [.leave])

/-- The main thread. -/
def mainThread : Machine MainState Inputs Event := ⟨mainStep⟩

end Firmware
