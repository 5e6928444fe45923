-- SUMMARY: `ultrasonic.cpp`: the range finder's interrupt routines, its timeout, and the calls that threads make on it.
import SmartAlarm.Lib.Machine
import Mathlib.Data.Rat.Floor

/-!
# The range finder

A pulse on the trigger pin starts a measurement, the edges of the echo pin time
it, and a `Timeout` starts the next one. An interrupt routine runs to its end. A
thread can be interrupted before every statement of a call, so what is left of
a call is the list of its statements. All times are in microseconds, but for the
two periods of the constructor, which are in seconds. The count of `_t` is an `int`
and wraps, as `end - start` does. That its seconds are a `float` is left out.
-/

structure Ultrasonic where
  /-- The pin `_trig`. -/
  trig : Bool
  /-- `_startT` is attached to the rising edge of `_echo`. -/
  rise : Bool
  /-- `_updateDist` is attached to the falling edge of `_echo`. -/
  fall : Bool
  /-- The time that `_t` has counted since the constructor started it or `reset` was called. -/
  t : Nat
  /-- The time until `_tout` calls `_startTrig`, if it is attached. -/
  tout : Option Nat
  distance : Int
  updateSpeed : ℚ
  timeout : ℚ
  start : Int32
  stop : Int32
  done : Bool
  d : Bool

namespace Ultrasonic

/-- The constructor, on an object with static storage. -/
def init (updateSpeed timeout : ℚ) : Ultrasonic where
  trig := false
  rise := false
  fall := false
  t := 0
  tout := none
  distance := 0
  updateSpeed := updateSpeed
  timeout := timeout
  start := 0
  stop := 0
  done := false
  d := false

/-- What `Ticker::attach` makes of a time in seconds. -/
def microseconds (seconds : ℚ) : Nat := ⌊seconds * 1000000⌋.toNat

/-- `_t.read_us()`, after `t` microseconds. -/
def read_us (t : Nat) : Int32 := Int32.ofNat t

/-- `_t.read()` -/
def read (t : Nat) : ℚ := (read_us t).toInt / 1000000

/-! ## Statements -/

inductive Stmt where
  /-- `_tout.detach()` -/
  | detach
  /-- `_trig = 1` -/
  | trigHigh
  /-- `wait_us(10)` -/
  | hold
  /-- `done = 0` -/
  | clearDone
  /-- `_echo.rise(this, &ultrasonic::_startT)` -/
  | attachRise
  /-- `_echo.fall(this, &ultrasonic::_updateDist)` -/
  | attachFall
  /-- `_echo.enable_irq()`, on an interrupt that nobody disables -/
  | enableIrq
  /-- `_tout.attach(this, &ultrasonic::_startTrig, _timeout)` -/
  | attachTimeout
  /-- `_trig = 0` -/
  | trigLow
  /-- `if (_t.read() > 600) { _t.reset(); }` -/
  | rewind
  /-- `start = _t.read_us()` -/
  | readStart
  /-- `end = _t.read_us()` -/
  | readEnd
  /-- `done = 1` -/
  | setDone
  /-- `_distance = (end - start) / 1830` -/
  | setDistance
  /-- `_tout.attach(this, &ultrasonic::_startTrig, _updateSpeed)` -/
  | attachUpdate
  /-- `_echo.rise(NULL)` -/
  | detachRise
  /-- `_echo.fall(NULL)` -/
  | detachFall
  /-- `d = done` -/
  | fetchDone
  /-- `if (isUpdated()) { (*_onUpdateMethod)(_distance); }`, once `isUpdated` has returned `d` -/
  | report
  /-- `_updateSpeed = updateSpeed` -/
  | setUpdateSpeed (updateSpeed : ℚ)
deriving DecidableEq, Repr

/-- What the driver does to its surroundings, and the time that passes. -/
inductive Event where
  | trig (on : Bool)
  /-- A rising edge was timed. -/
  | rising
  /-- A falling edge was timed, and this is the new distance. -/
  | falling (distance : Int)
  /-- The update method is called. -/
  | onUpdate (distance : Int)
  | pass (us : Nat)
deriving DecidableEq, Repr

def exec (u : Ultrasonic) : Stmt → Ultrasonic × List Event
  | .detach => ({ u with tout := none }, [])
  | .trigHigh => ({ u with trig := true }, [.trig true])
  | .hold => (u, [])
  | .clearDone => ({ u with done := false }, [])
  | .attachRise => ({ u with rise := true }, [])
  | .attachFall => ({ u with fall := true }, [])
  | .enableIrq => (u, [])
  | .attachTimeout => ({ u with tout := some (microseconds u.timeout) }, [])
  | .trigLow => ({ u with trig := false }, [.trig false])
  | .rewind => (if 600 < read u.t then { u with t := 0 } else u, [])
  | .readStart => ({ u with start := read_us u.t }, [.rising])
  | .readEnd => ({ u with stop := read_us u.t }, [])
  | .setDone => ({ u with done := true }, [])
  | .setDistance =>
    let distance := ((u.stop - u.start) / 1830).toInt
    ({ u with distance := distance }, [.falling distance])
  | .attachUpdate => ({ u with tout := some (microseconds u.updateSpeed) }, [])
  | .detachRise => ({ u with rise := false }, [])
  | .detachFall => ({ u with fall := false }, [])
  | .fetchDone => ({ u with d := u.done }, [])
  | .report => (u, if u.d then [.onUpdate u.distance] else [])
  | .setUpdateSpeed updateSpeed => ({ u with updateSpeed := updateSpeed }, [])

/-- An interrupt routine, from its first statement to its last. -/
def routine (u : Ultrasonic) (stmts : List Stmt) : Ultrasonic × List Event :=
  match stmts with
  | []    => (u, [])
  | s :: stmts =>
    let (u', now) := u.exec s
    let (u'', later) := u'.routine stmts
    (u'', now ++ later)

/-! ## Functions -/

def _startT : List Stmt := [.rewind, .readStart]

def _updateDist : List Stmt := [.readEnd, .setDone, .setDistance, .detach, .attachUpdate]

def _startTrig : List Stmt :=
  [.detach, .trigHigh, .hold, .clearDone, .attachRise, .attachFall, .enableIrq, .attachTimeout,
    .trigLow]

def startUpdates : List Stmt := _startTrig

def pauseUpdates : List Stmt := [.detach, .detachRise, .detachFall]

def changeUpdateSpeed (updateSpeed : ℚ) : List Stmt := [.setUpdateSpeed updateSpeed]

def isUpdated : List Stmt := [.fetchDone, .clearDone]

def checkDistance : List Stmt := isUpdated ++ [.report]

/-- `getCurrentDistance` -/
def getCurrentDistance (u : Ultrasonic) : Int := u.distance

/-! ## The driver at work -/

/-- The driver, and what is left of the call that a thread has made on it. -/
structure Sensor where
  driver : Ultrasonic
  todo : List Stmt

def Sensor.init (updateSpeed timeout : ℚ) : Sensor := ⟨.init updateSpeed timeout, []⟩

inductive Call where
  | startUpdates
  | pauseUpdates
  | changeUpdateSpeed (updateSpeed : ℚ)
  | checkDistance
deriving DecidableEq, Repr

def Call.body : Call → List Stmt
  | .startUpdates => Ultrasonic.startUpdates
  | .pauseUpdates => Ultrasonic.pauseUpdates
  | .changeUpdateSpeed updateSpeed => Ultrasonic.changeUpdateSpeed updateSpeed
  | .checkDistance => Ultrasonic.checkDistance

inductive Action where
  | call (c : Call)
  /-- The thread executes the next statement of its call. -/
  | step
  /-- The edges of the echo pin. -/
  | rise
  | fall
  /-- `_tout` is due. -/
  | fire
  | pass (us : Nat)
deriving DecidableEq, Repr

def sensorStep (s : Sensor) : Action → Sensor × List Event
  | .call c => ({ s with todo := c.body }, [])
  | .step =>
    match s.todo with
    | []           => (s, [])
    | stmt :: todo =>
      let (driver, events) := s.driver.exec stmt
      (⟨driver, todo⟩, events)
  | .rise =>
    if s.driver.rise then
      let (driver, events) := s.driver.routine _startT
      ({ s with driver := driver }, events)
    else (s, [])
  | .fall =>
    if s.driver.fall then
      let (driver, events) := s.driver.routine _updateDist
      ({ s with driver := driver }, events)
    else (s, [])
  | .fire =>
    let (driver, events) := s.driver.routine _startTrig
    ({ s with driver := driver }, events)
  | .pass us =>
    ({ s with driver := { s.driver with t := s.driver.t + us, tout := s.driver.tout.map (· - us) } },
      [.pass us])

def sensor : Machine Sensor Action Event := ⟨sensorStep⟩

/-- What can happen: a thread makes one call at a time, the timeout comes when it
    is due, and time does not pass it by. -/
def Enabled (s : Sensor) : Action → Prop
  | .call _ => s.todo = []
  | .step => s.todo ≠ []
  | .rise | .fall => True
  | .fire => s.driver.tout = some 0
  | .pass us => ∀ due ∈ s.driver.tout, us ≤ due

instance decidableEnabled : ∀ (s : Sensor) (a : Action), Decidable (Enabled s a)
  | s, .call _ => inferInstanceAs (Decidable (s.todo = []))
  | s, .step => inferInstanceAs (Decidable (s.todo ≠ []))
  | _, .rise | _, .fall => inferInstanceAs (Decidable True)
  | s, .fire => inferInstanceAs (Decidable (s.driver.tout = some 0))
  | s, .pass us => inferInstanceAs (Decidable (∀ due ∈ s.driver.tout, us ≤ due))

end Ultrasonic
