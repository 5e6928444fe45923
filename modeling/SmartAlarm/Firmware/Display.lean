-- SUMMARY: What `main` prints: the clock and the alarm, through two drivers on the same screen.
import SmartAlarm.Firmware.Main
import SmartAlarm.Firmware.Screen

/-!
# The display

`timeDisplay.cpp` and `alarmSet.cpp` have a driver each, and both are connected to
the one screen. Neither knows where the other has left the cursor. Only `main`
prints.
-/

namespace Firmware

open ULCD

/-- The drivers, by their names in `timeDisplay.cpp` and `alarmSet.cpp`. -/
inductive Lcd where
  | timeScreen
  | alarm
deriving DecidableEq, Repr

/-- `timeLCD.displayTime()`, when `time(NULL)` is `seconds`. -/
def displayTimeCalls (seconds : Nat) : List (Lcd × Call) :=
  ((.locate 0 0 : Call) :: print (TimeDisplay.displayTime seconds)).map (Lcd.timeScreen, ·)

/-- `alarmSet.alarmDisplay()`. Its second `printf` is given a `std::string` for `%s`, and is
    taken to print the characters of it. -/
def alarmDisplayCalls (alarmTime : List Char) : List (Lcd × Call) :=
  ((.locate 0 5 : Call) :: print "Alarm time:".toList ++
    .locate 0 6 :: print (AlarmSet.alarmDisplay alarmTime)).map (Lcd.alarm, ·)

/-- The format of `setTime`. -/
def setTimeFormat : List Char := TimeDisplay.format ++ ['\r']

/-- What a pass of the loop in `setTime` prints. -/
def setTimeCalls (seconds : Nat) : List (Lcd × Call) :=
  (print (Libc.strftime setTimeFormat (Libc.localtime seconds))).map (Lcd.timeScreen, ·)

/-- What a step of `main` prints. -/
def prints (m : MainState) (i : Inputs) : List (Lcd × Call) :=
  match m.pc with
  | .setTime => if i.set then [] else setTimeCalls i.time
  | .top => displayTimeCalls i.time ++ alarmDisplayCalls m.globals.alarmTime
  | .rearm => displayTimeCalls i.time
  | _ => []

/-- Both drivers under their calls, with the commands that reach the screen. -/
def lcds : Machine (Lcd → ULCD) (Lcd × Call) Frame where
  step drivers call :=
    (Function.update drivers call.1 (calls.next (drivers call.1) call.2), calls.out (drivers call.1) call.2)

structure Display where
  main : MainState
  drivers : Lcd → ULCD

/-- `main` with what it prints. -/
def display : Machine Display Inputs Frame where
  step s i :=
    (⟨(mainStep s.main i).1, lcds.run s.drivers (prints s.main i)⟩, lcds.trace s.drivers (prints s.main i))

/-- The constructors, on memory that holds `memory`, and the first statement of `setTime`,
    with the commands that they send. -/
def Display.init (memory : Lcd → ULCD) : Display × List Frame :=
  let constructed (o : Lcd) := (memory o).init
  let located := lcds.step (fun o => (constructed o).1) (.timeScreen, .locate 0 0)
  (⟨MainState.init, located.1⟩, (constructed .timeScreen).2 ++ (constructed .alarm).2 ++ located.2)

end Firmware
