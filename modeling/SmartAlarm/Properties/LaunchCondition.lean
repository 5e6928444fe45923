-- SUMMARY: The start condition as arithmetic: it looks at the seconds of the reading only, so the robot is called in every minute.
import SmartAlarm.Firmware.Main
import SmartAlarm.Properties.AlarmEditor

/-!
# When the robot is launched

`main` subtracts two times that are written as decimals. An alarm has no
seconds, hours weigh 1000000 and minutes 1000, so modulo 50 only the seconds of
the reading are left: the test is passed at seconds 00 and 50 of every minute.
-/

namespace Firmware

open AlarmSet ClockFace TimeDisplay

/-! ## The encoding of a time -/

theorem replaceChar_append (s t : List Char) (ch1 ch2 : Char) :
    replaceChar (s ++ t) ch1 ch2 = replaceChar s ch1 ch2 ++ replaceChar t ch1 ch2 :=
  List.map_append

theorem replaceChar_pad2 {n : Nat} (h : n < 100) (ch2 : Char) :
    replaceChar (Decimal.pad2 n) ':' ch2 = Decimal.pad2 n := by
  have hkeep : ∀ c ∈ Decimal.pad2 n, (if c = ':' then ch2 else c) = id c := by
    intro c hc
    have hdigit := Decimal.isDigit_of_mem_pad2 h c hc
    refine if_neg ?_
    rintro rfl
    cases hdigit
  rw [replaceChar, List.map_congr_left hkeep, List.map_id]

/-- The digits that `atoi` finds in the text of a face. -/
def codeDigits (f : ClockFace) : List Char :=
  Decimal.pad2 f.hour ++ (['0'] ++ (Decimal.pad2 f.minute ++ (['0'] ++ Decimal.pad2 f.second)))

theorem replaceChar_text (f : ClockFace) :
    replaceChar f.text ':' '0' = codeDigits f ++ [' ', if f.pm then 'P' else 'A', 'M'] := by
  have := f.hour_le
  have := f.minute_lt
  have := f.second_lt
  have htext : f.text = Decimal.pad2 f.hour ++ ([':'] ++ (Decimal.pad2 f.minute ++
      ([':'] ++ (Decimal.pad2 f.second ++ [' ', if f.pm then 'P' else 'A', 'M'])))) := by
    simp [text]
  have hsuffix : replaceChar [' ', if f.pm then 'P' else 'A', 'M'] ':' '0' =
      [' ', if f.pm then 'P' else 'A', 'M'] := by
    cases f.pm <;> rfl
  simp only [htext, replaceChar_append, hsuffix, replaceChar_pad2 (show f.hour < 100 by omega),
    replaceChar_pad2 (show f.minute < 100 by omega), replaceChar_pad2 (show f.second < 100 by omega)]
  simp [codeDigits, replaceChar]

theorem isDigit_of_mem_codeDigits (f : ClockFace) : ∀ c ∈ codeDigits f, Decimal.isDigit c = true := by
  have := f.hour_le
  have := f.minute_lt
  have := f.second_lt
  have hzero : ∀ c ∈ ['0'], Decimal.isDigit c = true := by simp; rfl
  intro c hc
  simp only [codeDigits, List.mem_append] at hc
  rcases hc with hc | hc | hc | hc | hc
  · exact Decimal.isDigit_of_mem_pad2 (by omega) c hc
  · exact hzero c hc
  · exact Decimal.isDigit_of_mem_pad2 (by omega) c hc
  · exact hzero c hc
  · exact Decimal.isDigit_of_mem_pad2 (by omega) c hc

theorem ofDigits_codeDigits (f : ClockFace) :
    Decimal.ofDigits (codeDigits f) = 1000000 * f.hour + 1000 * f.minute + f.second := by
  have := f.hour_le
  have := f.minute_lt
  have := f.second_lt
  have hzero : Decimal.ofDigits ['0'] = 0 := rfl
  simp only [codeDigits, Decimal.ofDigits_append, List.length_append, Decimal.length_pad2,
    List.length_singleton, hzero, Decimal.ofDigits_pad2 (show f.hour < 100 by omega),
    Decimal.ofDigits_pad2 (show f.minute < 100 by omega),
    Decimal.ofDigits_pad2 (show f.second < 100 by omega)]
  omega

/-- The number that `main` makes of a time. AM and PM are lost. -/
theorem encode_text (f : ClockFace) :
    encode f.text = ((1000000 * f.hour + 1000 * f.minute + f.second : Nat) : Int) := by
  have hne : codeDigits f ≠ [] := by simp [codeDigits, Decimal.pad2]
  rw [encode, replaceChar_text,
    Libc.atoi_digits_append hne (isDigit_of_mem_codeDigits f) (by simp; rfl), ofDigits_codeDigits]

/-! ## The start condition -/

/-- Against an alarm the test is passed at seconds 00 and 50, whatever hour and minute it is. -/
theorem startCondition_iff (t v : Nat) :
    startCondition (displayTime t) (alarmText v) = true ↔ t % 60 = 0 ∨ t % 60 = 50 := by
  have halarm : (ofSecond (60 * v)).second = 0 := Nat.mul_mod_right 60 v
  have hreading : (ofSecond t).second = t % 60 := rfl
  rw [startCondition, decide_eq_true_eq, displayTime_eq_text, alarmText, encode_text, encode_text,
    halarm, hreading]
  omega

/-- The seconds from a reading to the next time the clock shows what it shows at `T`. -/
def secondsUntil (t T : Nat) : Nat := (T % 86400 + (86400 - t % 86400)) % 86400

/-- The same in minutes, seconds disregarded. -/
def minutesUntil (t T : Nat) : Nat := (T / 60 % 1440 + (1440 - t / 60 % 1440)) % 1440

theorem secondsUntil_of_whole {t T : Nat} (hT : T % 60 = 0) (ht : t % 60 = 0) :
    secondsUntil t T = 60 * minutesUntil t T := by
  simp only [secondsUntil, minutesUntil]
  omega

theorem secondsUntil_of_fifty {t T : Nat} (hT : T % 60 = 0) (ht : t % 60 = 50) :
    secondsUntil t T = if minutesUntil t T = 0 then 86350 else 60 * minutesUntil t T - 50 := by
  by_cases h : minutesUntil t T = 0
  · rw [if_pos h]
    simp only [secondsUntil, minutesUntil] at h ⊢
    omega
  · rw [if_neg h]
    simp only [secondsUntil, minutesUntil] at h ⊢
    omega

/-- An alarm instant is a whole minute. -/
theorem alarm_instant {ps : List Press} {T : Nat} (hT : displayTime T = alarmAfter ps) :
    T % 60 = 0 ∧ ∃ v, alarmAfter ps = alarmText v := by
  obtain ⟨v, htext, -⟩ := alarmAfter_eq_alarmText ps
  rw [htext, alarmText_eq_displayTime, displayTime_eq_iff] at hT
  exact ⟨by omega, v, htext⟩

/-- For every alarm setting with its instant `T` and every reading `t`, a launch
    lies in the last five minutes before the alarm exactly if there is none, at
    seconds other than 00 and 50, or the alarm's minute is at most five ahead,
    the same minute counting at second 00 only. -/
theorem launched_before_alarm_iff (ps : List Press) (t T : Nat)
    (hT : displayTime T = alarmAfter ps) :
    (startCondition (displayTime t) (alarmDisplay (alarmAfter ps)) = true →
      secondsUntil t T ≤ 300) ↔
    (t % 60 ≠ 0 ∧ t % 60 ≠ 50) ∨
      minutesUntil t T ≤ 5 ∧ (t % 60 = 50 → minutesUntil t T ≠ 0) := by
  obtain ⟨hwhole, v, htext⟩ := alarm_instant hT
  rw [alarmDisplay, htext, startCondition_iff]
  by_cases h0 : t % 60 = 0
  · rw [secondsUntil_of_whole hwhole h0]
    omega
  · by_cases h50 : t % 60 = 50
    · rw [secondsUntil_of_fifty hwhole h50]
      split <;> omega
    · simp [h0, h50]

/-- Ten seconds before the initial alarm, at midnight, the robot is launched in time. -/
theorem launched_ten_seconds_before :
    displayTime 86400 = alarmAfter [] ∧
      (startCondition (displayTime 86390) (alarmDisplay (alarmAfter [])) = true →
        secondsUntil 86390 86400 ≤ 300) :=
  ⟨by decide +kernel,
    (launched_before_alarm_iff [] 86390 86400 (by decide +kernel)).mpr (by decide)⟩

/-- At noon the robot is launched for an alarm at midnight. -/
theorem launched_at_noon :
    ¬ ∀ (ps : List Press) (t T : Nat), displayTime T = alarmAfter ps →
      startCondition (displayTime t) (alarmDisplay (alarmAfter ps)) = true →
        secondsUntil t T ≤ 300 := by
  intro h
  have hlate := h [] 43200 86400 (by decide +kernel) (by decide +kernel)
  revert hlate
  decide

/-! ## The call ten seconds before the alarm -/

/-- A pass of the main loop that reads a time at which the start condition holds
    calls `thread.start`. -/
theorem threadStart_mem_trace {m : MainState} {i : Inputs} (hpc : m.pc = .top)
    (hstart : startCondition (displayTime i.time) (alarmDisplay m.globals.alarmTime) = true)
    (j : Inputs) : .threadStart ∈ mainThread.trace m [i, j] := by
  have hnext : mainThread.next m i = topStep i m := by
    simp only [Machine.next, mainThread, mainStep, hpc]
  have hresult : (topStep i m).result = true := hstart
  have hlaunch : (topStep i m).pc = .launch := rfl
  have hout : mainThread.out (topStep i m) j = [.threadStart] := by
    simp only [Machine.out, mainThread, mainStep, hlaunch, hresult, if_true]
  rw [Machine.trace_cons, Machine.trace_cons, hnext, hout]
  exact List.mem_append_right _ (List.mem_append_left _ List.mem_cons_self)

/-- For every alarm setting with an instant `T`: the start condition holds at `T`
    and at every reading ten seconds before it, and a pass of the main loop with
    such a reading starts the robot. -/
theorem called_ten_seconds_before (ps : List Press) (T : Nat)
    (hT : displayTime T = alarmAfter ps) :
    startCondition (displayTime T) (alarmDisplay (alarmAfter ps)) = true ∧
      ∀ t, (t + 10) % 86400 = T % 86400 →
        startCondition (displayTime t) (alarmDisplay (alarmAfter ps)) = true ∧
          ∀ (m : MainState) (i j : Inputs), m.pc = .top → m.globals.alarmTime = alarmAfter ps →
            i.time = t → .threadStart ∈ mainThread.trace m [i, j] := by
  obtain ⟨hwhole, v, htext⟩ := alarm_instant hT
  have hstart (t : Nat) : startCondition (displayTime t) (alarmDisplay (alarmAfter ps)) = true ↔
      t % 60 = 0 ∨ t % 60 = 50 := by
    rw [alarmDisplay, htext, startCondition_iff]
  refine ⟨(hstart T).mpr (.inl hwhole), fun t ht => ?_⟩
  have hbefore := (hstart t).mpr (by omega)
  refine ⟨hbefore, fun m i j hpc halarm htime => threadStart_mem_trace hpc ?_ j⟩
  rw [halarm, htime]
  exact hbefore

/-- The alarm is set to one o'clock in the morning, and the clock is ten seconds short of it. -/
theorem called_before_one :
    displayTime 3600 = alarmAfter [.hour] ∧
      startCondition (displayTime 3590) (alarmDisplay (alarmAfter [.hour])) = true := by
  have halarm : displayTime 3600 = alarmAfter [.hour] := by decide +kernel
  exact ⟨halarm, ((called_ten_seconds_before [.hour] 3600 halarm).2 3590 rfl).1⟩

end Firmware
