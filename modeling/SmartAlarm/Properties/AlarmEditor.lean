-- SUMMARY: The alarm editor refines a minute-of-day counter, except for the hour carry that `minuteSet` loses at 09:59.
import SmartAlarm.Firmware.AlarmSet
import SmartAlarm.Firmware.TimeDisplay

/-!
# The alarm editor as a counter

What the editor is for: the alarm is a minute of the day, `hourSet` adds an
hour and `minuteSet` adds a minute. The text follows that counter through every
carry but one. `minuteSet` has no branch that takes the hour from 09 to 10, so a
press at 09:59 falls back to 09:00 and loses an hour.
-/

namespace AlarmSet

open ClockFace Libc

/-! ## Texts by hour and minute -/

/-- The alarm text of a minute counted from some midnight. -/
def alarmText (v : Nat) : List Char := (ofSecond (60 * v)).text

/-- The alarm text at hour `k` of the day, 0 to 23, and minute `m`. -/
private def layout (k m : Nat) : List Char :=
  Decimal.pad2 ((k + 11) % 12 + 1) ++ ':' :: Decimal.pad2 m ++
    [':', '0', '0', ' ', if 12 ≤ k then 'P' else 'A', 'M']

private theorem alarmText_eq_layout (v : Nat) : alarmText v = layout (v / 60 % 24) (v % 60) := by
  have hhour : 60 * v / 3600 % 24 = v / 60 % 24 := by omega
  have hmin : 60 * v / 60 % 60 = v % 60 := by omega
  have hsec : 60 * v % 60 = 0 := by omega
  simp only [alarmText, text, ofSecond, hhour, hmin, hsec, decide_eq_true_eq]
  rfl

private theorem hourSet_layout {k : Nat} (m : Nat) (hk : k < 24) :
    hourSet (layout k m) = layout ((k + 1) % 24) m := by
  interval_cases k <;> rfl

private theorem minuteSet_layout {m : Nat} (k : Nat) (hm : m < 59) :
    minuteSet (layout k m) = layout k (m + 1) := by
  interval_cases m <;> rfl

/-- At minute 59 the carry ladder decides. Its missing branch keeps the hour. -/
private theorem minuteSet_layout_carry {k : Nat} (hk : k < 24) :
    minuteSet (layout k 59) = if k % 12 = 9 then layout k 0 else layout ((k + 1) % 24) 0 := by
  interval_cases k <;> rfl

/-! ## One press -/

/-- The text of the state in which `minuteSet` loses the carry. -/
def showsNineFiftyNine (s : List Char) : Bool :=
  charAt s 0 = '0' && charAt s 1 = '9' && charAt s 3 = '5' && charAt s 4 = '9'

theorem alarmText_eq_displayTime (v : Nat) : alarmText v = TimeDisplay.displayTime (60 * v) :=
  (TimeDisplay.displayTime_eq_text (60 * v)).symm

theorem alarmTime_eq_alarmText : alarmTime = alarmText 0 := rfl

theorem minuteShown_alarmText (v : Nat) : minuteShown (alarmText v) = some (v % 1440) := by
  have hminute : (ofSecond (60 * v)).toMinute = v % 1440 := by
    rw [toMinute_ofSecond]
    omega
  exact minuteShown_eq_some_iff.mpr ⟨ofSecond (60 * v), rfl, hminute⟩

theorem hourSet_alarmText (v : Nat) : hourSet (alarmText v) = alarmText (v + 60) := by
  rw [alarmText_eq_layout, hourSet_layout _ (by omega), alarmText_eq_layout]
  congr 1 <;> omega

theorem minuteSet_alarmText {v : Nat} (h : v % 720 ≠ 599) :
    minuteSet (alarmText v) = alarmText (v + 1) := by
  rw [alarmText_eq_layout, alarmText_eq_layout]
  by_cases hm : v % 60 < 59
  · rw [minuteSet_layout _ hm]
    congr 1 <;> omega
  · have hm59 : v % 60 = 59 := by omega
    rw [hm59, minuteSet_layout_carry (by omega), if_neg (by omega)]
    congr 1 <;> omega

theorem minuteSet_alarmText_lost {v : Nat} (h : v % 720 = 599) :
    minuteSet (alarmText v) = alarmText (v - 59) := by
  have hm59 : v % 60 = 59 := by omega
  rw [alarmText_eq_layout, hm59, minuteSet_layout_carry (by omega), if_pos (by omega),
    alarmText_eq_layout]
  congr 1 <;> omega

theorem showsNineFiftyNine_alarmText (v : Nat) :
    showsNineFiftyNine (alarmText v) = true ↔ v % 720 = 599 := by
  have hchars : showsNineFiftyNine (alarmText v) = true ↔
      ((Decimal.digit (((v / 60 % 24 + 11) % 12 + 1) / 10) = Decimal.digit 0 ∧
        Decimal.digit (((v / 60 % 24 + 11) % 12 + 1) % 10) = Decimal.digit 9) ∧
        Decimal.digit (v % 60 / 10) = Decimal.digit 5) ∧
        Decimal.digit (v % 60 % 10) = Decimal.digit 9 := by
    rw [alarmText_eq_layout]
    simp only [showsNineFiftyNine, Bool.and_eq_true, decide_eq_true_eq]
    rfl
  rw [hchars, Decimal.digit_inj (by omega) (by omega), Decimal.digit_inj (by omega) (by omega),
    Decimal.digit_inj (by omega) (by omega), Decimal.digit_inj (by omega) (by omega)]
  omega

/-! ## Every sequence of presses -/

/-- The minutes that a sequence of presses asks for. -/
def minutesAsked (ps : List Press) : Nat := 60 * ps.count .hour + ps.count .minute

/-- The presses of `minuteSet` that found the alarm at 09:59. -/
def lostCarries (ps : List Press) : Nat :=
  (editor.trace alarmTime ps).countP fun e => e.1 = .minute && showsNineFiftyNine e.2

theorem minutesAsked_concat (ps : List Press) (p : Press) :
    minutesAsked (ps ++ [p]) = minutesAsked ps + match p with | .hour => 60 | .minute => 1 := by
  cases p <;> simp only [minutesAsked, List.count_append] <;> simp <;> omega

/-- The text always shows the minutes asked for, less an hour for each lost carry. -/
theorem alarmAfter_eq_alarmText (ps : List Press) :
    ∃ v, alarmAfter ps = alarmText v ∧ v + 60 * lostCarries ps = minutesAsked ps := by
  refine editor.history
    (J := fun ps tr s => ∃ v, s = alarmText v ∧
      v + 60 * tr.countP (fun e => e.1 = .minute && showsNineFiftyNine e.2) = minutesAsked ps)
    ⟨0, alarmTime_eq_alarmText, rfl⟩ ?_ ps
  rintro ps tr _ p ⟨v, rfl, hv⟩
  rw [editor_next, editor_out, List.countP_append, minutesAsked_concat]
  cases p with
  | hour => exact ⟨v + 60, hourSet_alarmText v, by simp; omega⟩
  | minute =>
    by_cases hlost : v % 720 = 599
    · have hshows := (showsNineFiftyNine_alarmText v).mpr hlost
      exact ⟨v - 59, minuteSet_alarmText_lost hlost, by simp [hshows]; omega⟩
    · have hshows := mt (showsNineFiftyNine_alarmText v).mp hlost
      exact ⟨v + 1, minuteSet_alarmText hlost, by simp [hshows]; omega⟩

theorem minuteShown_alarmAfter_iff (ps : List Press) :
    minuteShown (alarmAfter ps) = some (minutesAsked ps % 1440) ↔ 24 ∣ lostCarries ps := by
  obtain ⟨v, htext, hv⟩ := alarmAfter_eq_alarmText ps
  rw [htext, minuteShown_alarmText, Option.some.injEq]
  omega

theorem lostCarries_concat_hour (ps : List Press) :
    lostCarries (ps ++ [.hour]) = lostCarries ps := by
  rw [lostCarries, Machine.trace_concat, List.countP_append]
  simp [lostCarries]

/-- A press of `minuteSet` loses the carry exactly when the alarm is at 09:59. -/
theorem lostCarries_concat_minute {ps : List Press} {v : Nat} (h : alarmAfter ps = alarmText v) :
    lostCarries (ps ++ [.minute]) = lostCarries ps + if v % 720 = 599 then 1 else 0 := by
  have hshows := showsNineFiftyNine_alarmText v
  rw [← h, alarmAfter] at hshows
  rw [lostCarries, Machine.trace_concat, List.countP_append, editor_out, List.countP_singleton]
  simp only [lostCarries, decide_true, Bool.true_and, hshows]

/-- A sequence of presses that never presses `minuteSet` at 09:59 loses nothing. -/
theorem lostCarries_eq_zero {ps : List Press}
    (h : ∀ qs, qs ++ [.minute] <+: ps → minutesAsked qs % 720 ≠ 599) : lostCarries ps = 0 := by
  induction ps using List.reverseRecOn with
  | nil => rfl
  | append_singleton ps p ih =>
    have hps : lostCarries ps = 0 :=
      ih fun qs hqs => h qs (hqs.trans (List.prefix_append ps [p]))
    cases p with
    | hour => rw [lostCarries_concat_hour, hps]
    | minute =>
      obtain ⟨v, htext, hv⟩ := alarmAfter_eq_alarmText ps
      have hne := h ps List.prefix_rfl
      rw [lostCarries_concat_minute htext, hps, if_neg (by omega)]

/-- How far the editor is a minute-of-day counter. After a sequence of presses
    the alarm shows the minutes asked for exactly when the hours lost at 09:59
    make up whole days; and it has shown them after every press so far exactly
    when no `minuteSet` was pressed at 09:59. -/
theorem editor_counts_iff (ps : List Press) :
    (minuteShown (alarmAfter ps) = some (minutesAsked ps % 1440) ↔ 24 ∣ lostCarries ps) ∧
    ((∀ qs, qs <+: ps → minuteShown (alarmAfter qs) = some (minutesAsked qs % 1440)) ↔
      ∀ qs, qs ++ [.minute] <+: ps → minutesAsked qs % 720 ≠ 599) := by
  refine ⟨minuteShown_alarmAfter_iff ps, ?_, ?_⟩
  · intro hall qs hqs hnine
    obtain ⟨v, htext, hv⟩ := alarmAfter_eq_alarmText qs
    have hbefore := (minuteShown_alarmAfter_iff qs).mp
      (hall qs ((List.prefix_append qs [.minute]).trans hqs))
    have hafter := (minuteShown_alarmAfter_iff _).mp (hall _ hqs)
    rw [lostCarries_concat_minute htext, if_pos (by omega)] at hafter
    omega
  · intro hnine qs hqs
    have hzero : lostCarries qs = 0 :=
      lostCarries_eq_zero fun rs hrs => hnine rs (hrs.trans hqs)
    rw [minuteShown_alarmAfter_iff, hzero]
    exact dvd_zero 24

/-- Nine hours and sixty minutes from midnight the alarm is back at 09:00, not at 10:00. -/
theorem minuteSet_loses_hour :
    ¬ ∀ ps, minuteShown (alarmAfter ps) = some (minutesAsked ps % 1440) := by
  intro h
  have hlost := h (List.replicate 9 .hour ++ List.replicate 60 .minute)
  revert hlost
  decide +kernel

/-! ## The text is always one that the clock shows -/

/-- Whatever is pressed, the alarm text is the clock's text for exactly one
    second of the day, and that second starts a minute. -/
theorem alarmAfter_shown_once (ps : List Press) :
    ∃ t, t < 86400 ∧ t % 60 = 0 ∧ TimeDisplay.displayTime t = alarmAfter ps ∧
      ∀ u, u < 86400 → TimeDisplay.displayTime u = alarmAfter ps → u = t := by
  obtain ⟨v, htext, -⟩ := alarmAfter_eq_alarmText ps
  have hclock (u : Nat) : TimeDisplay.displayTime u = alarmAfter ps ↔ u % 86400 = 60 * v % 86400 := by
    rw [htext, alarmText_eq_displayTime, TimeDisplay.displayTime_eq_iff]
  refine ⟨60 * v % 86400, by omega, by omega, ?_, ?_⟩
  · rw [hclock, Nat.mod_mod]
  · intro u hu hshown
    rw [hclock] at hshown
    omega

end AlarmSet
