-- SUMMARY: `motordriver.cpp`: a motor's pins, the interlock of `Motor::speed`, braking, coasting and the state it reports.
import SmartAlarm.Lib.Machine
import Mathlib.Data.Rat.Defs

/-!
# The motor driver

A command against the direction of the last one switches the motor off instead
of reversing it. The next command is obeyed again.
-/

structure Motor where
  pwm : ℚ
  fwd : Bool
  rev : Bool
  /-- The direction of the last command: 1, -1, or 0 if it was to stop. -/
  sign : Int

namespace Motor

/-- The constructor. -/
def init : Motor where
  pwm := 0
  fwd := false
  rev := false
  sign := 0

/-- `_fwd = (speed > 0.0); _rev = (speed < 0.0); _pwm = duty;` -/
def drive (m : Motor) (speed duty : ℚ) : Motor :=
  { m with fwd := 0 < speed, rev := speed < 0, pwm := duty }

/-- `Motor::speed`, with the value that it returns. -/
def speed (m : Motor) (speed : ℚ) : Motor × ℚ :=
  let magnitude := if speed < 0 then -speed else speed
  let (m, temp) :=
    if m.sign = 0 then (m.drive speed magnitude, magnitude)
    else if m.sign = 1 then
      if speed < 0 then (m.drive speed 0, 0) else (m.drive speed magnitude, magnitude)
    else if m.sign = -1 then
      if 0 < speed then (m.drive speed 0, 0) else (m.drive speed magnitude, magnitude)
    else (m, 0)
  ({ m with sign := if 0 < speed then 1 else if speed < 0 then -1 else 0 }, temp)

/-- `Motor::coast` -/
def coast (_m : Motor) : Motor where
  pwm := 0
  fwd := false
  rev := false
  sign := 0

/-- `Motor::stop`, with the value that it returns. -/
def stop (brakeable : Int) (m : Motor) (duty : ℚ) : Motor × ℚ :=
  if brakeable = 1 then ({ m with fwd := true, rev := true, pwm := duty, sign := 0 }, duty)
  else (m.coast, -1)

/-- What `PwmOut::read` gives back of the duty written last: it is saturated. -/
def duty (m : Motor) : ℚ := if m.pwm < 0 then 0 else if 1 < m.pwm then 1 else m.pwm

/-- `Motor::state`: -1 to 1 is speed, -2 is braking, 2 is coasting, -3 is an error. -/
def state (m : Motor) : ℚ :=
  if m.fwd = m.rev ∧ 0 < m.duty then -2
  else if m.duty = 0 then 2
  else if m.fwd = false ∧ m.rev = true then -m.duty
  else if m.fwd = true ∧ m.rev = false then m.duty
  else -3

/-! ## Sequences of calls -/

inductive Call where
  | speed (speed : ℚ)
  | coast
  | stop (duty : ℚ)
deriving DecidableEq, Repr

/-- A motor under calls in any order, with the values that they return. -/
def calls (brakeable : Int) : Machine Motor Call ℚ where
  step m
    | .speed speed => ((m.speed speed).1, [(m.speed speed).2])
    | .coast       => (m.coast, [])
    | .stop duty   => ((m.stop brakeable duty).1, [(m.stop brakeable duty).2])

end Motor
