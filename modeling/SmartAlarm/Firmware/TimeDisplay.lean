-- SUMMARY: `timeDisplay.cpp`: the text of the clock, and one poll of the loop that sets it.
import SmartAlarm.Firmware.Libc
import SmartAlarm.Lib.ClockFace
import SmartAlarm.Lib.Machine

/-!
# The clock display

`displayTime` prints the real-time clock with `strftime`; `setTime` polls the
buttons at start-up and sets the clock. The conversion buffer of 32 characters
holds the eleven that are printed, and what goes to the screen is left out.
-/

namespace TimeDisplay

open Libc

/-- The format `"%I:%M:%S %p"`. -/
def format : List Char := ['%', 'I', ':', '%', 'M', ':', '%', 'S', ' ', '%', 'p']

/-- The string that `displayTime` returns when `time(NULL)` is `seconds`. -/
def displayTime (seconds : Nat) : List Char := strftime format (localtime seconds)

/-- One pass of the loop in `setTime`: the new local `seconds`, and the argument
    of `set_time` if it is called. -/
def setTimePoll (seconds : Nat) (hour minute : Bool) : Nat × Option Nat :=
  if hour then (seconds + 3600, some (seconds + 3600))
  else if minute then (seconds + 60, some (seconds + 60))
  else (seconds, none)

/-! ## The loop of `setTime` -/

/-- The local `seconds`, and the value that `time(NULL)` returns. -/
structure Setting where
  seconds : Nat
  rtc : Nat

/-- A pass of the loop, in which `set` is low: what the buttons are, and the
    seconds that the clock has counted since the pass before. -/
structure Poll where
  ticks : Nat
  hour : Bool
  minute : Bool

/-- A call of `set_time`: the value of the clock just before and just after. -/
structure SetTime where
  before : Nat
  after : Nat
deriving DecidableEq

/-- `setTime`. The clock stores what `set_time` is given and counts on from there. -/
def setTime : Machine Setting Poll SetTime where
  step s i :=
    match setTimePoll s.seconds i.hour i.minute with
    | (seconds, some value) => (⟨seconds, value⟩, [⟨s.rtc + i.ticks, value⟩])
    | (seconds, none)       => (⟨seconds, s.rtc + i.ticks⟩, [])

/-! ## What is shown -/

/-- The clock prints the face of the second it reads. -/
theorem displayTime_eq_text (t : Nat) : displayTime t = (ClockFace.ofSecond t).text := by
  have hhour : hour12 (localtime t) = (t / 3600 % 24 + 11) % 12 + 1 := by
    rw [hour12, localtime_hour]
    split <;> omega
  have hpm : (if (localtime t).tm_hour < 12 then ['A', 'M'] else ['P', 'M']) =
      [if 12 ≤ t / 3600 % 24 then 'P' else 'A', 'M'] := by
    rw [localtime_hour]
    by_cases h : t / 3600 % 24 < 12
    · rw [if_pos h, if_neg (by omega)]
    · rw [if_neg h, if_pos (by omega)]
  have hfields : displayTime t =
      Decimal.pad2 (hour12 (localtime t)) ++ ':' :: Decimal.pad2 (localtime t).tm_min ++
        ':' :: Decimal.pad2 (localtime t).tm_sec ++
        ' ' :: (if (localtime t).tm_hour < 12 then ['A', 'M'] else ['P', 'M']) := by
    simp [displayTime, format, strftime]
  rw [hfields, hhour, hpm, localtime_min, localtime_sec]
  simp only [ClockFace.text, ClockFace.ofSecond, decide_eq_true_eq]

/-- Two seconds look the same on the display exactly when they are whole days apart. -/
theorem displayTime_eq_iff {t u : Nat} : displayTime t = displayTime u ↔ t % 86400 = u % 86400 := by
  rw [displayTime_eq_text, displayTime_eq_text, ClockFace.text_ofSecond_eq_iff]

end TimeDisplay
