-- SUMMARY: The whole device: both threads, and the range finder whose driver they call.
import SmartAlarm.Firmware.System
import SmartAlarm.Firmware.Ultrasonic

/-!
# The device

The system takes the distance as an input of the robot thread. In the device it
is what the range finder has measured. A call of the driver keeps its thread
until it has returned, and the interrupts of the driver come at any time.
-/

namespace Firmware

inductive ThreadId where
  | main
  | robot
deriving DecidableEq, Repr

structure Device where
  system : System
  sensor : Ultrasonic.Sensor
  /-- The thread that has called the driver last. -/
  caller : ThreadId

/-- Power-on, with the range finder `mu(p11, p12, .1, 1, &dist)`. -/
def Device.init : Device where
  system := System.init
  sensor := .init 0.1 1
  caller := .main

/-- The calls of the driver that an event stands for. -/
def Event.calls : Event → List Ultrasonic.Call
  | .startUpdates => [.startUpdates]
  | .checkDistance => [.checkDistance]
  | _ => []

inductive DeviceAction where
  | pass (us : Nat)
  /-- A step of `main` or of the robot thread outside the driver. -/
  | main (i : Inputs)
  | robot
  /-- The next statement of the driver, in the thread that has called it. -/
  | statement
  /-- The interrupts of the driver. -/
  | rise
  | fall
  | fire

inductive DeviceEvent where
  | system (e : Event)
  | sensor (e : Ultrasonic.Event)
deriving DecidableEq, Repr

/-- What an action is for the system. -/
def DeviceAction.systemInputs (d : Device) : DeviceAction → List Action
  | .pass us => [.elapse (us / 1000000)]
  | .main i => [.main i]
  | .robot => [.robot d.sensor.driver.getCurrentDistance]
  | .statement | .rise | .fall | .fire => []

/-- The calls of the driver that an action makes. -/
def DeviceAction.calls (d : Device) (a : DeviceAction) : List Ultrasonic.Call :=
  (system.trace d.system (a.systemInputs d)).flatMap Event.calls

/-- What an action is for the range finder. -/
def DeviceAction.sensorInputs (d : Device) : DeviceAction → List Ultrasonic.Action
  | .pass us => [.pass us]
  | .main i => ((DeviceAction.main i).calls d).map .call
  | .robot => (DeviceAction.robot.calls d).map .call
  | .statement => [.step]
  | .rise => [.rise]
  | .fall => [.fall]
  | .fire => [.fire]

def DeviceAction.caller (d : Device) (a : DeviceAction) : ThreadId :=
  if a.calls d = [] then d.caller
  else match a with
    | .robot => .robot
    | _      => .main

def device : Machine Device DeviceAction DeviceEvent where
  step d a :=
    ({ system := system.run d.system (a.systemInputs d)
       sensor := Ultrasonic.sensor.run d.sensor (a.sensorInputs d)
       caller := a.caller d },
      (system.trace d.system (a.systemInputs d)).map .system ++
        (Ultrasonic.sensor.trace d.sensor (a.sensorInputs d)).map .sensor)

/-- A thread takes a step if the system lets it and it is not in a call of the driver. -/
def DeviceEnabled (d : Device) : DeviceAction → Prop
  | .pass us => Ultrasonic.Enabled d.sensor (.pass us)
  | .main i => Enabled d.system (.main i) ∧ (d.caller = .main → d.sensor.todo = [])
  | .robot =>
    Enabled d.system (.robot d.sensor.driver.getCurrentDistance) ∧
      (d.caller = .robot → d.sensor.todo = [])
  | .statement => Ultrasonic.Enabled d.sensor .step
  | .rise => Ultrasonic.Enabled d.sensor .rise
  | .fall => Ultrasonic.Enabled d.sensor .fall
  | .fire => Ultrasonic.Enabled d.sensor .fire

instance decidableDeviceEnabled (d : Device) : ∀ a, Decidable (DeviceEnabled d a)
  | .pass us => inferInstanceAs (Decidable (Ultrasonic.Enabled d.sensor (.pass us)))
  | .main _ => inferInstanceAs (Decidable (_ ∧ (_ → _)))
  | .robot => inferInstanceAs (Decidable (_ ∧ (_ → _)))
  | .statement => inferInstanceAs (Decidable (Ultrasonic.Enabled d.sensor .step))
  | .rise => inferInstanceAs (Decidable (Ultrasonic.Enabled d.sensor .rise))
  | .fall => inferInstanceAs (Decidable (Ultrasonic.Enabled d.sensor .fall))
  | .fire => inferInstanceAs (Decidable (Ultrasonic.Enabled d.sensor .fire))

end Firmware
