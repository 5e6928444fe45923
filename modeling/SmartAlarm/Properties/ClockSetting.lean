-- SUMMARY: Setting the clock: what it shows after any sequence of presses and ticks, and when a press turns it back.
import SmartAlarm.Firmware.TimeDisplay

/-!
# Setting the clock

`setTime` adds up the presses in a local and writes the sum to the clock at each
of them. The clock counts on between two presses, and the next press overwrites
what it has counted. Sums below 2^31 are exact in the `int` of the source.
-/

namespace TimeDisplay

/-! ## Presses and ticks -/

/-- The seconds that the pass adds, if a button is read high. -/
def Poll.advance (i : Poll) : Option Nat :=
  if i.hour then some 3600 else if i.minute then some 60 else none

/-- `H`: the passes with `hour` high. -/
def hours (ps : List Poll) : Nat := ps.countP fun i => i.hour

/-- `M`: the passes with `hour` low and `minute` high. -/
def minutes (ps : List Poll) : Nat := ps.countP fun i => !i.hour && i.minute

/-- The seconds counted from the start of the passes to the last of them. -/
def ticks (ps : List Poll) : Nat := (ps.map Poll.ticks).sum

/-- The seconds counted after the last press. -/
def ticksSincePress (ps : List Poll) : Nat :=
  ticks (ps.reverse.takeWhile fun i => i.advance.isNone)

theorem setTimePoll_eq (seconds : Nat) (i : Poll) :
    setTimePoll seconds i.hour i.minute =
      (seconds + i.advance.getD 0, i.advance.map (seconds + ·)) := by
  unfold setTimePoll Poll.advance
  split
  · rfl
  · split <;> rfl

theorem step_setTime_of_none {i : Poll} (h : i.advance = none) (s : Setting) :
    setTime.step s i = (⟨s.seconds, s.rtc + i.ticks⟩, []) := by
  simp [setTime, setTimePoll_eq, h]

theorem step_setTime_of_some {i : Poll} {n : Nat} (h : i.advance = some n) (s : Setting) :
    setTime.step s i =
      (⟨s.seconds + n, s.seconds + n⟩, [⟨s.rtc + i.ticks, s.seconds + n⟩]) := by
  simp [setTime, setTimePoll_eq, h]

/-! ## The clock after any passes -/

section Snoc

variable (ps : List Poll) (i : Poll)

theorem ticks_concat : ticks (ps ++ [i]) = ticks ps + i.ticks := by
  simp [ticks]

theorem ticksSincePress_concat_of_none (h : i.advance = none) :
    ticksSincePress (ps ++ [i]) = ticksSincePress ps + i.ticks := by
  simp [ticksSincePress, ticks, h, Nat.add_comm]

theorem ticksSincePress_concat_of_some {n : Nat} (h : i.advance = some n) :
    ticksSincePress (ps ++ [i]) = 0 := by
  simp [ticksSincePress, ticks, h]

/-- A pass adds to the sum what its button stands for. -/
theorem pressed_concat :
    3600 * hours (ps ++ [i]) + 60 * minutes (ps ++ [i]) =
      3600 * hours ps + 60 * minutes ps + i.advance.getD 0 := by
  cases hhour : i.hour <;> cases hminute : i.minute <;>
    simp [hours, minutes, List.countP_append, Poll.advance, hhour, hminute] <;> omega

theorem presses_concat_of_none (h : i.advance = none) :
    hours (ps ++ [i]) + minutes (ps ++ [i]) = hours ps + minutes ps := by
  cases hhour : i.hour <;> cases hminute : i.minute <;>
    simp_all [hours, minutes, List.countP_append, Poll.advance]

theorem presses_concat_of_some {n : Nat} (h : i.advance = some n) :
    0 < hours (ps ++ [i]) + minutes (ps ++ [i]) := by
  cases hhour : i.hour <;> cases hminute : i.minute <;>
    simp_all [hours, minutes, List.countP_append, Poll.advance]

end Snoc

/-- What a run of `setTime` leaves behind: the local is the sum of the presses,
    and the clock counts from it, or from where it was if nothing was pressed. -/
structure Counted (r : Nat) (ps : List Poll) (s : Setting) : Prop where
  seconds : s.seconds = 3600 * hours ps + 60 * minutes ps
  pressed : 0 < hours ps + minutes ps → s.rtc = s.seconds + ticksSincePress ps
  untouched : hours ps + minutes ps = 0 → s.rtc = r + ticks ps

theorem Counted.step {r : Nat} {ps : List Poll} {s : Setting} (h : Counted r ps s) (i : Poll) :
    Counted r (ps ++ [i]) (setTime.next s i) := by
  cases hi : i.advance with
  | none =>
    rw [Machine.next, step_setTime_of_none hi]
    have hpresses := presses_concat_of_none ps i hi
    refine ⟨?_, fun hpos => ?_, fun hzero => ?_⟩
    · rw [pressed_concat, hi, h.seconds]
      rfl
    · rw [ticksSincePress_concat_of_none ps i hi, h.pressed (by omega), Nat.add_assoc]
    · rw [ticks_concat, h.untouched (by omega), Nat.add_assoc]
  | some n =>
    rw [Machine.next, step_setTime_of_some hi]
    have hpresses := presses_concat_of_some ps i hi
    refine ⟨?_, fun _ => ?_, fun hzero => ?_⟩
    · rw [pressed_concat, hi, h.seconds]
      rfl
    · rw [ticksSincePress_concat_of_some ps i hi]
      rfl
    · omega

theorem counted_run (r : Nat) (ps : List Poll) : Counted r ps (setTime.run ⟨0, r⟩ ps) := by
  refine setTime.history (J := fun ps _ s => Counted r ps s) ?_ (fun _ _ _ i h => h.step i) ps
  exact ⟨rfl, fun h => absurd h (lt_irrefl 0), fun _ => rfl⟩

/-- The display some seconds after the loop, in terms of the presses and of the
    seconds since the last of them. -/
theorem displayTime_run {r : Nat} {ps : List Poll} (hpos : 0 < hours ps + minutes ps)
    (rest : Nat) :
    displayTime ((setTime.run ⟨0, r⟩ ps).rtc + rest) =
      (ClockFace.ofSecond
        ((3600 * hours ps + 60 * minutes ps + (ticksSincePress ps + rest)) % 86400)).text := by
  have h := counted_run r ps
  rw [displayTime_eq_text, ClockFace.text_ofSecond_eq_iff, h.pressed hpos, h.seconds, Nat.mod_mod,
    Nat.add_assoc]

/-- For every run of `setTime` on a clock at `r` that is left `rest` seconds after
    its last pass: what is shown next is the sum of the presses plus the seconds
    since the last of them, whatever the order of the presses; with no press the
    clock has counted on. -/
theorem shown_after_setting (r : Nat) (ps : List Poll) (rest : Nat) :
    (0 < hours ps + minutes ps →
      displayTime ((setTime.run ⟨0, r⟩ ps).rtc + rest) =
        (ClockFace.ofSecond
          ((3600 * hours ps + 60 * minutes ps + (ticksSincePress ps + rest)) % 86400)).text ∧
      ∀ r' ps' rest', hours ps' = hours ps → minutes ps' = minutes ps →
        ticksSincePress ps' + rest' = ticksSincePress ps + rest →
          displayTime ((setTime.run ⟨0, r'⟩ ps').rtc + rest') =
            displayTime ((setTime.run ⟨0, r⟩ ps).rtc + rest)) ∧
    (hours ps + minutes ps = 0 →
      (setTime.run ⟨0, r⟩ ps).rtc + rest = r + (ticks ps + rest)) := by
  refine ⟨fun hpos => ⟨displayTime_run hpos rest, fun r' ps' rest' hhours hminutes hticks => ?_⟩,
    fun hzero => ?_⟩
  · rw [displayTime_run hpos, displayTime_run (by omega), hhours, hminutes, hticks]
  · rw [(counted_run r ps).untouched hzero, Nat.add_assoc]

/-- Two hours and a minute are pressed with some seconds in between, and the clock
    is looked at five seconds after the last press. -/
theorem shown_two_hours_one_minute :
    displayTime ((setTime.run ⟨0, 500⟩
        [⟨7, true, false⟩, ⟨40, false, true⟩, ⟨3, true, true⟩, ⟨2, false, false⟩]).rtc + 3) =
      "02:01:05 AM".toList := by
  have h := ((shown_after_setting 500
    [⟨7, true, false⟩, ⟨40, false, true⟩, ⟨3, true, true⟩, ⟨2, false, false⟩] 3).1 (by decide)).1
  rw [h]
  decide +kernel

/-! ## Turning the clock back -/

/-- Every press but the first comes before the clock has counted, from the press
    before it, the seconds that it adds. `since` is what the clock has counted
    since the last press, if there has been one. -/
def Prompt : Option Nat → List Poll → Prop
  | _, []          => True
  | since, i :: ps =>
    match i.advance with
    | none   => Prompt (since.map (· + i.ticks)) ps
    | some n => (∀ k ∈ since, k + i.ticks < n) ∧ Prompt (some 0) ps

theorem trace_setTime_of_none {i : Poll} (h : i.advance = none) (s : Setting) (ps : List Poll) :
    setTime.trace s (i :: ps) = setTime.trace ⟨s.seconds, s.rtc + i.ticks⟩ ps := by
  rw [Machine.trace_cons, Machine.out, Machine.next, step_setTime_of_none h, List.nil_append]

theorem trace_setTime_of_some {i : Poll} {n : Nat} (h : i.advance = some n) (s : Setting)
    (ps : List Poll) :
    setTime.trace s (i :: ps) = ⟨s.rtc + i.ticks, s.seconds + n⟩ ::
      setTime.trace ⟨s.seconds + n, s.seconds + n⟩ ps := by
  rw [Machine.trace_cons, Machine.out, Machine.next, step_setTime_of_some h, List.singleton_append]

/-- After a press, when the clock is ahead of the local by what it has counted. -/
theorem later_iff_of_pressed {s : Setting} {k : Nat} (h : s.rtc = s.seconds + k) (ps : List Poll) :
    (∀ e ∈ setTime.trace s ps, e.before < e.after) ↔ Prompt (some k) ps := by
  induction ps generalizing s k with
  | nil => simp [Prompt]
  | cons i ps ih =>
    cases hi : i.advance with
    | none =>
      have hahead : s.rtc + i.ticks = s.seconds + (k + i.ticks) := by omega
      rw [trace_setTime_of_none hi, ih hahead]
      simp [Prompt, hi]
    | some n =>
      have hlater : s.rtc + i.ticks < s.seconds + n ↔ k + i.ticks < n := by omega
      rw [trace_setTime_of_some hi, List.forall_mem_cons, ih (k := 0) rfl, hlater]
      simp [Prompt, hi]

/-- For every run of `setTime`: each press after the first leaves the clock later
    than it showed just before, exactly if these presses are prompt. -/
theorem presses_advance_clock_iff (r : Nat) (ps : List Poll) :
    (∀ e ∈ (setTime.trace ⟨0, r⟩ ps).tail, e.before < e.after) ↔ Prompt none ps := by
  induction ps generalizing r with
  | nil => simp [Prompt]
  | cons i ps ih =>
    cases hi : i.advance with
    | none =>
      rw [trace_setTime_of_none hi, ih]
      simp [Prompt, hi]
    | some n =>
      rw [trace_setTime_of_some hi, List.tail_cons, later_iff_of_pressed (k := 0) rfl]
      simp [Prompt, hi]

/-- A minute is pressed, and pressed again a hundred seconds later: the clock
    goes from 160 to 120. -/
theorem second_minute_turns_back :
    ¬ ∀ (r : Nat) (ps : List Poll), 3600 * hours ps + 60 * minutes ps < 2 ^ 31 →
      ∀ e ∈ (setTime.trace ⟨0, r⟩ ps).tail, e.before < e.after := by
  intro h
  have hlater := h 0 [⟨0, false, true⟩, ⟨100, false, true⟩] (by decide) ⟨160, 120⟩ (by decide)
  revert hlater
  decide

end TimeDisplay
