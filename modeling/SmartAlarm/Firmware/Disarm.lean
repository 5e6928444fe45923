-- SUMMARY: The globals of `main.cpp`, the events of the threads, and one pass of the loop that disarms the alarm.
import SmartAlarm.Firmware.AlarmSet
import SmartAlarm.Firmware.LedSequence

/-!
# The disarm loop

`main` waits in `while (inputCount < 4)` until the user has entered the letters
of `ledColorSeq`. Each pass samples the four buttons in order; only a pass that
finds none of them down looks at the timers that repeat the song and the lights.
-/

namespace Firmware

/-! ## Events -/

inductive MotorId where
  | A
  | B
deriving DecidableEq, Repr

inductive TimerId where
  | tSpeaker
  | tLED
  | tMotor
deriving DecidableEq, Repr

inductive TimerOp where
  | start
  | stop
  | reset
deriving DecidableEq, Repr

/-- A call that a thread makes on the devices and libraries around it, and three
    observations of `main`: `pass`, `accept` and `leave`. -/
inductive Event where
  | speed (m : MotorId) (v : ℚ)
  | timer (t : TimerId) (op : TimerOp)
  | wait (s : ℚ)
  | threadWait (ms : Nat)
  | setTime (seconds : Nat)
  | startUpdates
  | checkDistance
  | threadStart
  | speakerInit
  | turnOffSpeaker
  | turnOffColor
  | ledSelect (pattern : List Char)
  | ledRepeatSequence (pattern : List Char)
  | lamp (e : LedSequence.LedEvent)
  /-- A pass of the main loop compared its reading with the alarm. -/
  | pass (reading : Nat) (alarm : List Char) (entered : Bool)
  /-- A pressed letter was the next one of the pattern. -/
  | accept (c : Char)
  /-- The alarm branch was left. -/
  | leave
deriving DecidableEq, Repr

/-! ## State and inputs -/

/-- The globals of `main.cpp` that the loop reads or writes, and those of the
    modules it calls. -/
structure Globals where
  alarmTime : List Char
  currentTime : List Char
  currentAlarmTime : List Char
  ledColorSeq : List Char
  inputSeq : Char
  inputCount : Nat
  matched : Nat
  game : LedSequence.Game

/-- The globals at power-on. -/
def Globals.init : Globals where
  alarmTime := AlarmSet.alarmTime
  currentTime := []
  currentAlarmTime := []
  ledColorSeq := [' ']
  inputSeq := '\x00'
  inputCount := 0
  matched := 0
  game := LedSequence.Game.init

/-- What one pass of the disarm loop reads: the buttons, and both timers in seconds. -/
structure Samples where
  ledButton1 : Bool
  ledButton2 : Bool
  ledButton3 : Bool
  ledButton4 : Bool
  tSpeaker : ℚ
  tLED : ℚ

open Libc

/-! ## One pass -/

/-- `stop(); reset(); start();` -/
def restart (t : TimerId) : List Event := [.timer t .stop, .timer t .reset, .timer t .start]

/-- The branch of one button: a letter counts if the pattern has it next. -/
def enter (letter : Char) (g : Globals) : Globals × List Event :=
  let g := { g with inputSeq := letter }
  if g.inputSeq = charAt g.ledColorSeq g.inputCount then
    ({ g with inputCount := g.inputCount + 1, matched := g.matched + 1 }, [.accept letter])
  else (g, [])

/-- The branch taken when no button is down: repeat the song, repeat the lights. -/
def refresh (i : Samples) (g : Globals) : Globals × List Event :=
  let song : List Event := if 7.65 ≤ i.tSpeaker then restart .tSpeaker ++ [.speakerInit] else []
  if 3 ≤ i.tLED then
    let (game, lamps) := LedSequence.ledRepeatSequence g.ledColorSeq g.game
    ({ g with game := game },
      song ++ restart .tLED ++ .ledRepeatSequence g.ledColorSeq :: lamps.map .lamp)
  else (g, song)

/-- The test at the top of the loop body that is to silence the alarm. -/
def shutOff (g : Globals) : Globals × List Event :=
  if g.matched = g.ledColorSeq.length then
    let (game, lamps) := LedSequence.turnOffColor g.game
    ({ g with game := game, matched := 0 }, .turnOffSpeaker :: .turnOffColor :: lamps.map .lamp)
  else (g, [])

/-- The ladder of the four buttons and the timers. -/
def ladder (i : Samples) (g : Globals) : Globals × List Event :=
  if i.ledButton1 then enter 'a' g
  else if i.ledButton2 then enter 'b' g
  else if i.ledButton3 then enter 'c' g
  else if i.ledButton4 then enter 'd' g
  else refresh i g

/-- The body of `while (inputCount < 4)`. -/
def disarmPass (i : Samples) (g : Globals) : Globals × List Event :=
  let (g', off) := shutOff g
  let (g'', events) := ladder i g'
  (g'', off ++ events)

/-- The disarm loop. Once the loop condition fails it takes no more passes. -/
def disarmLoop : Machine Globals Samples Event where
  step g i := if g.inputCount < 4 then disarmPass i g else (g, [])

end Firmware
