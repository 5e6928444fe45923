-- SUMMARY: `alarmSet.cpp`: the alarm time kept as text and edited in place by `hourSet` and `minuteSet`.
import SmartAlarm.Firmware.Libc
import SmartAlarm.Lib.Machine

/-!
# The alarm editor

`alarmSet.cpp` keeps the alarm as the text `alarmTime` and advances it character
by character. `minuteSet` carries into the hour with a ladder of its own, not
with `hourSet`'s.
-/

namespace AlarmSet

open Libc

/-- The global `alarmTime` at power-on, `"12:00:00 AM"`. -/
def alarmTime : List Char := ['1', '2', ':', '0', '0', ':', '0', '0', ' ', 'A', 'M']

/-- The text that `alarmDisplay` prints and returns. -/
def alarmDisplay (alarmTime : List Char) : List Char := alarmTime

/-- The three lines that turn AM into PM and back. -/
def flipMeridiem (alarmTime : List Char) : List Char :=
  if charAt alarmTime 9 = 'A' then alarmTime.set 9 'P'
  else if charAt alarmTime 9 = 'P' then alarmTime.set 9 'A'
  else alarmTime

def hourSet (alarmTime : List Char) : List Char :=
  if (charAt alarmTime 0 = '0' ∧ charAt alarmTime 1 < '9') ∨
      (charAt alarmTime 0 = '1' ∧ charAt alarmTime 1 < '1') then
    alarmTime.set 1 (charSucc (charAt alarmTime 1))
  else if charAt alarmTime 0 = '0' ∧ charAt alarmTime 1 = '9' then
    (alarmTime.set 0 '1').set 1 '0'
  else if charAt alarmTime 0 = '1' ∧ charAt alarmTime 1 = '1' then
    flipMeridiem (alarmTime.set 1 (charSucc (charAt alarmTime 1)))
  else if charAt alarmTime 0 = '1' ∧ charAt alarmTime 1 = '2' then
    (alarmTime.set 0 '0').set 1 '1'
  else alarmTime

/-- The hour ladder inside `minuteSet`. It has no branch for `09`. -/
def carryHour (alarmTime : List Char) : List Char :=
  if (charAt alarmTime 0 < '1' ∧ charAt alarmTime 1 < '9') ∨
      (charAt alarmTime 0 = '1' ∧ charAt alarmTime 1 < '1') then
    alarmTime.set 1 (charSucc (charAt alarmTime 1))
  else if charAt alarmTime 0 = '1' ∧ charAt alarmTime 1 = '1' then
    flipMeridiem (alarmTime.set 1 (charSucc (charAt alarmTime 1)))
  else if charAt alarmTime 0 = '1' ∧ charAt alarmTime 1 = '2' then
    (alarmTime.set 0 '0').set 1 '1'
  else alarmTime

def minuteSet (alarmTime : List Char) : List Char :=
  if charAt alarmTime 3 < '6' ∧ charAt alarmTime 4 < '9' then
    alarmTime.set 4 (charSucc (charAt alarmTime 4))
  else if charAt alarmTime 3 < '5' ∧ charAt alarmTime 4 = '9' then
    (alarmTime.set 3 (charSucc (charAt alarmTime 3))).set 4 '0'
  else if charAt alarmTime 3 = '5' ∧ charAt alarmTime 4 = '9' then
    carryHour ((alarmTime.set 3 '0').set 4 '0')
  else alarmTime

/-! ## Sequences of presses -/

/-- One call of the editor: `hour` is `hourSet`, `minute` is `minuteSet`. -/
inductive Press where
  | hour
  | minute
deriving DecidableEq, Repr

def press : Press → List Char → List Char
  | .hour   => hourSet
  | .minute => minuteSet

/-- The editor as a machine. Each step reports the call and the text it found. -/
def editor : Machine (List Char) Press (Press × List Char) where
  step alarmTime p := (press p alarmTime, [(p, alarmTime)])

@[simp] theorem editor_next (s : List Char) (p : Press) : editor.next s p = press p s := rfl
@[simp] theorem editor_out (s : List Char) (p : Press) : editor.out s p = [(p, s)] := rfl

/-- The alarm after a sequence of calls from power-on. -/
def alarmAfter (ps : List Press) : List Char := editor.run alarmTime ps

end AlarmSet
