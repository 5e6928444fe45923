-- SUMMARY: The passes of the main loop: which of them enter the alarm branch, and that no alarm is missed or repeated.
import SmartAlarm.Firmware.Main
import SmartAlarm.Properties.Disarming
import SmartAlarm.Lib.Sampling

/-!
# Passes of the main loop

A pass reads the clock, and enters the alarm branch if the text of that reading
is the alarm. The loop does not know when the alarm is due; it has to meet the
second itself.
-/

namespace Firmware

open TimeDisplay

/-- A pass that has compared its reading with the alarm. -/
structure Pass where
  reading : Nat
  alarm : List Char
  entered : Bool
deriving DecidableEq, Repr

def Event.pass? : Event → Option Pass
  | .pass reading alarm entered => some ⟨reading, alarm, entered⟩
  | _                           => none

/-- The passes of a trace, oldest first. -/
def passes (tr : List Event) : List Pass := tr.filterMap Event.pass?

/-! ## What a pass compares -/

/-- Between the top of the loop and the comparison, `currentTime` is the text of the reading. -/
def ReadingShown (m : MainState) : Prop :=
  m.pc = .launch ∨ m.pc = .compare → m.globals.currentTime = displayTime m.reading

/-- A pass enters the alarm branch exactly if the clock shows the alarm. -/
def Pass.Sound (p : Pass) : Prop := p.entered = true ↔ displayTime p.reading = p.alarm

theorem ReadingShown.step {m : MainState} (h : ReadingShown m) (i : Inputs) :
    ReadingShown (mainThread.next m i) := by
  simp only [Machine.next, mainThread, mainStep]
  cases hpc : m.pc with
  | top => exact fun _ => rfl
  | launch => exact fun _ => h (.inl hpc)
  | compare =>
    simp only
    split <;> rintro (h | h) <;> cases h
  | setTime =>
    simp only
    split <;> rintro (h | h) <;> simp_all
  | disarm =>
    simp only
    split <;> rintro (h | h) <;> simp_all
  | startSpeaker | startLED | stopA | stopB | ring | select | rearm => rintro (h | h) <;> cases h

/-- How the next pass follows a pass: the clock does not run backwards, it
    advances by a second at most, and by ten at least if the branch was taken. -/
structure Pass.Follows (p q : Pass) : Prop where
  mono : p.reading ≤ q.reading
  skipped : p.entered = false → q.reading ≤ p.reading + 1
  waited : p.entered = true → p.reading + 10 ≤ q.reading

/-- The inputs of a step with the clock at `t`, the set switch on, and a letter
    of the pattern or nothing on the buttons. -/
def Inputs.showing (t : Nat) (x : Option Char) : Inputs :=
  { Samples.showing x with time := t, hour := false, minute := false, set := true, rand := id }

end Firmware
