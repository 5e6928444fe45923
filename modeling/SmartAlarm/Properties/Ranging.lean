-- SUMMARY: What the range finder measures, and that it reports no measurement twice.
import SmartAlarm.Firmware.Ultrasonic
import Mathlib.Tactic.Linarith

/-!
# Measuring the distance

The interrupt routines of the driver come between any two statements of a thread
that calls it. What a thread does touches neither the timer nor the times that
the edges have left behind. What it reports is announced by a flag that it reads
and clears in two statements.
-/

namespace Ultrasonic

/-! ## The routines -/

theorem routine_startT (u : Ultrasonic) :
    u.routine _startT =
      (if 600 < read u.t then { u with t := 0, start := 0 } else { u with start := read_us u.t },
        [.rising]) := by
  simp only [routine, _startT, exec, List.nil_append, List.append_nil]
  split <;> rfl

theorem routine_updateDist (u : Ultrasonic) :
    u.routine _updateDist =
      ({ u with
          stop := read_us u.t
          done := true
          distance := ((read_us u.t - u.start) / 1830).toInt
          tout := some (microseconds u.updateSpeed) },
        [.falling ((read_us u.t - u.start) / 1830).toInt]) := rfl

theorem routine_startTrig (u : Ultrasonic) :
    u.routine _startTrig =
      ({ u with
          trig := false
          done := false
          rise := true
          fall := true
          tout := some (microseconds u.timeout) },
        [.trig true, .trig false]) := rfl

/-! ## The thread's statements -/

/-- What a thread still has to execute is the rest of a call. -/
def InCall (s : Sensor) : Prop := ∃ c : Call, s.todo <:+ c.body

theorem inCall_init (updateSpeed timeout : ℚ) : InCall (.init updateSpeed timeout) :=
  ⟨.startUpdates, List.nil_suffix⟩

theorem InCall.next {s : Sensor} (h : InCall s) (a : Action) : InCall (sensor.next s a) := by
  cases a with
  | call c => exact ⟨c, List.suffix_rfl⟩
  | step =>
    obtain ⟨c, hc⟩ := h
    cases htodo : s.todo with
    | nil => exact ⟨c, by simp [Machine.next, sensor, sensorStep, htodo]⟩
    | cons stmt todo =>
      rw [htodo] at hc
      refine ⟨c, ?_⟩
      simpa [Machine.next, sensor, sensorStep, htodo] using (List.suffix_cons _ _).trans hc
  | rise =>
    simp only [Machine.next, sensor, sensorStep]
    split <;> exact h
  | fall =>
    simp only [Machine.next, sensor, sensorStep]
    split <;> exact h
  | fire | pass us => exact h

/-- A statement that the thread comes to belongs to a call. -/
theorem InCall.mem {s : Sensor} (h : InCall s) {stmt : Stmt} {todo : List Stmt}
    (htodo : s.todo = stmt :: todo) : ∃ c : Call, stmt ∈ c.body := by
  obtain ⟨c, hc⟩ := h
  rw [htodo] at hc
  exact ⟨c, hc.mem List.mem_cons_self⟩

/-! ## What is measured -/

/-- What an observer with a clock of his own knows about the echo pin: the time
    since the last rising edge that was timed, and what it was at the last falling one. -/
structure Echo where
  since : Nat
  pulse : Nat

def Echo.observe (e : Echo) : Event → Echo
  | .pass us => { e with since := e.since + us }
  | .rising => { e with since := 0 }
  | .falling _ => { e with pulse := e.since }
  | _ => e

def echo (events : List Event) : Echo := events.foldl Echo.observe ⟨0, 0⟩

theorem echo_append (es fs : List Event) : echo (es ++ fs) = fs.foldl Echo.observe (echo es) :=
  List.foldl_append

def Event.isEdge : Event → Bool
  | .rising | .falling _ => true
  | _                    => false

/-- An edge is timed at most 1547 seconds after the rising edge that was timed last,
    or after power-on. With the ten minutes that the count may have before, this is
    what an `int` holds. -/
def InTime (pre : List Event) (e : Event) : Prop :=
  e.isEdge = true → (echo pre).since ≤ 1547483647

instance decidableInTime (pre : List Event) (e : Event) : Decidable (InTime pre e) :=
  inferInstanceAs (Decidable (_ → _))

/-- The driver agrees with the observer. -/
structure Timed (e : Echo) (u : Ultrasonic) : Prop where
  since : (u.t : Int) = u.start.toInt + e.since
  distance : u.distance = (e.pulse / 1830 : Nat)
  counter : u.t ≤ 600000000 + e.since

/-- In time the count has not wrapped. -/
theorem Timed.read_us {e : Echo} {u : Ultrasonic} (h : Timed e u) (hin : e.since ≤ 1547483647) :
    (read_us u.t).toInt = u.t := by
  have hcount := h.counter
  exact Int32.toInt_ofNat_of_lt (by omega)

theorem Timed.startT {e : Echo} {u : Ultrasonic} (h : Timed e u) (hin : e.since ≤ 1547483647) :
    Timed { e with since := 0 } (u.routine _startT).1 := by
  have hread := h.read_us hin
  rw [routine_startT]
  by_cases hlong : 600 < read u.t
  · rw [if_pos hlong]
    exact ⟨rfl, h.distance, Nat.zero_le _⟩
  · rw [if_neg hlong]
    refine ⟨by rw [hread]; exact (add_zero _).symm, h.distance, ?_⟩
    rw [not_lt, read, hread, div_le_iff₀ (by norm_num)] at hlong
    have hcount : (u.t : ℚ) ≤ (600000000 : Nat) := by
      push_cast at hlong ⊢
      linarith
    exact Nat.cast_le.mp hcount

/-- The difference of two counts is the time between them. -/
theorem toInt_units {since : Nat} {stop start : Int32} (h : stop.toInt = start.toInt + since)
    (hin : since ≤ 1547483647) : ((stop - start) / 1830).toInt = (since / 1830 : Nat) := by
  have hpulse : (stop - start).toInt = since := by
    rw [Int32.toInt_sub, h, add_sub_cancel_left]
    exact Int.bmod_eq_of_le (by omega) (by omega)
  rw [Int32.toInt_div_of_ne_right _ _ (by decide), hpulse]
  rfl

theorem Timed.updateDist {e : Echo} {u : Ultrasonic} (h : Timed e u) (hin : e.since ≤ 1547483647) :
    Timed { e with pulse := e.since } (u.routine _updateDist).1 := by
  exact ⟨h.since, toInt_units ((h.read_us hin).trans h.since) hin, h.counter⟩

/-- No statement of a call touches the timer and what the edges have stored. -/
theorem Timed.exec {e : Echo} {u : Ultrasonic} (h : Timed e u) {c : Call} {stmt : Stmt}
    (hstmt : stmt ∈ c.body) : Timed ((u.exec stmt).2.foldl Echo.observe e) (u.exec stmt).1 := by
  have hsame : (u.exec stmt).2.foldl Echo.observe e = e ∧ (u.exec stmt).1.t = u.t ∧
      (u.exec stmt).1.start = u.start ∧ (u.exec stmt).1.distance = u.distance := by
    cases stmt with
    | report =>
      simp only [Ultrasonic.exec]
      split <;> simp [Echo.observe]
    | rewind | readStart | readEnd | setDone | setDistance | attachUpdate =>
      cases c <;> simp [Call.body, Ultrasonic.startUpdates, _startTrig, Ultrasonic.pauseUpdates,
        Ultrasonic.changeUpdateSpeed, Ultrasonic.checkDistance, isUpdated] at hstmt
    | _ => exact ⟨rfl, rfl, rfl, rfl⟩
  obtain ⟨hecho, ht, hstart, hdistance⟩ := hsame
  rw [hecho]
  exact ⟨by rw [ht, hstart]; exact h.since, hdistance ▸ h.distance, ht ▸ h.counter⟩

theorem Timed.next {tr : List Event} {s : Sensor} (h : Timed (echo tr) s.driver)
    (hcall : InCall s) {a : Action} (hin : Machine.AtEach InTime (tr ++ sensor.out s a)) :
    Timed (echo (tr ++ sensor.out s a)) (sensor.next s a).driver := by
  rw [echo_append]
  cases a with
  | call c => exact h
  | step =>
    cases htodo : s.todo with
    | nil => simpa [Machine.next, Machine.out, sensor, sensorStep, htodo] using h
    | cons stmt todo =>
      obtain ⟨c, hc⟩ := hcall.mem htodo
      simpa [Machine.next, Machine.out, sensor, sensorStep, htodo] using h.exec hc
  | rise =>
    by_cases hrise : s.driver.rise = true
    · have hstep : sensor.step s .rise =
          ({ s with driver := (s.driver.routine _startT).1 }, [.rising]) := by
        simp [sensor, sensorStep, hrise, routine_startT]
      rw [Machine.out, hstep] at hin
      rw [Machine.next, Machine.out, hstep]
      exact h.startT (hin tr .rising [] rfl rfl)
    · simpa [Machine.next, Machine.out, sensor, sensorStep, hrise] using h
  | fall =>
    by_cases hfall : s.driver.fall = true
    · have hstep : sensor.step s .fall = ({ s with driver := (s.driver.routine _updateDist).1 },
          (s.driver.routine _updateDist).2) := by
        simp [sensor, sensorStep, hfall]
      rw [Machine.out, hstep, routine_updateDist] at hin
      rw [Machine.next, Machine.out, hstep]
      exact h.updateDist (hin tr _ [] rfl rfl)
    · simpa [Machine.next, Machine.out, sensor, sensorStep, hfall] using h
  | fire => exact ⟨h.since, h.distance, h.counter⟩
  | pass us =>
    refine ⟨?_, h.distance, ?_⟩
    · have hsince := h.since
      simp only [Machine.next, Machine.out, sensor, sensorStep, List.foldl_cons, List.foldl_nil,
        Echo.observe]
      push_cast
      omega
    · have hcounter := h.counter
      simp only [Machine.next, Machine.out, sensor, sensorStep, List.foldl_cons, List.foldl_nil,
        Echo.observe]
      omega

theorem timed_init (updateSpeed timeout : ℚ) : Timed (echo []) (init updateSpeed timeout) :=
  ⟨rfl, rfl, Nat.zero_le _⟩

theorem timed_run {updateSpeed timeout : ℚ} {as : List Action}
    (hin : Machine.AtEach InTime (sensor.trace (.init updateSpeed timeout) as)) :
    Timed (echo (sensor.trace (.init updateSpeed timeout) as))
      (sensor.run (.init updateSpeed timeout) as).driver := by
  have hboth := sensor.history
    (J := fun _ tr s => InCall s ∧ (Machine.AtEach InTime tr → Timed (echo tr) s.driver))
    (s := .init updateSpeed timeout) ⟨inCall_init _ _, fun _ => timed_init _ _⟩ ?_ as
  · exact hboth.2 hin
  · intro _ tr s a ⟨hcall, htimed⟩
    exact ⟨hcall.next a, fun h => (htimed h.left).next hcall h⟩

/-- In every run in which the edges come in time the distance is that of the last pulse,
    timed from the rising edge to the falling one. The rising edges take the counter back
    in time: it is never more than ten minutes ahead of the last of them. -/
theorem distance_of_last_pulse {updateSpeed timeout : ℚ} {as : List Action}
    (hin : Machine.AtEach InTime (sensor.trace (.init updateSpeed timeout) as)) :
    let s := sensor.run (.init updateSpeed timeout) as
    let e := echo (sensor.trace (.init updateSpeed timeout) as)
    s.driver.getCurrentDistance = (e.pulse / 1830 : Nat) ∧
      (s.driver.t : Int) - s.driver.start.toInt = e.since ∧ s.driver.t ≤ 600000000 + e.since := by
  have htimed := timed_run hin
  refine ⟨htimed.distance, ?_, htimed.counter⟩
  rw [htimed.since]
  omega

/-- The first echo comes ten minutes after power-on, and takes the counter back to 0. -/
theorem distance_of_last_pulse_rewound :
    let as := .pass 600000001 :: .call .startUpdates :: List.replicate 9 .step ++
      [.rise, .pass 5490, .fall]
    let s := sensor.run (.init 0.1 1) as
    let e := echo (sensor.trace (.init 0.1 1) as)
    s.driver.getCurrentDistance = (e.pulse / 1830 : Nat) ∧
      (s.driver.t : Int) - s.driver.start.toInt = e.since ∧ s.driver.t ≤ 600000000 + e.since :=
  distance_of_last_pulse (by decide +kernel)

/-! ## What is reported -/

def Event.isReport : Event → Bool
  | .onUpdate _ => true
  | _           => false

def Event.isEcho : Event → Bool
  | .falling _ => true
  | _          => false

/-- How many measurements a thread may still report: one that `done` announces, and
    one that the thread is about to report. Between `d = done` and `done = 0` both
    flags stand for the same measurement. -/
def Sensor.pending (s : Sensor) : Nat :=
  if .report ∈ s.todo then
    if .fetchDone ∈ s.todo then s.driver.done.toNat
    else if .clearDone ∈ s.todo then s.driver.d.toNat
    else s.driver.d.toNat + s.driver.done.toNat
  else s.driver.done.toNat

/-- No measurement is reported twice. -/
structure Reported (tr : List Event) (s : Sensor) : Prop where
  call : InCall s
  timed : Machine.AtEach InTime tr → Timed (echo tr) s.driver
  count : tr.countP Event.isReport + s.pending ≤ tr.countP Event.isEcho

/-- Where a thread that is going to report can be. -/
theorem InCall.report {s : Sensor} (h : InCall s) (hmem : .report ∈ s.todo) :
    s.todo = checkDistance ∨ s.todo = [.clearDone, .report] ∨ s.todo = [.report] := by
  obtain ⟨c, hc⟩ := h
  have hreport := hc.mem hmem
  cases c with
  | checkDistance =>
    rw [Call.body, checkDistance, isUpdated] at hc
    simp only [List.cons_append, List.nil_append, List.suffix_cons_iff, List.suffix_nil] at hc
    rcases hc with hc | hc | hc | hc
    · exact .inl hc
    · exact .inr (.inl hc)
    · exact .inr (.inr hc)
    · rw [hc] at hmem
      cases hmem
  | _ => simp [Call.body, startUpdates, _startTrig, pauseUpdates, changeUpdateSpeed] at hreport

/-- A statement that is not part of a report announces no measurement. -/
theorem exec_unreported {u : Ultrasonic} {c : Call} {stmt : Stmt} (hstmt : stmt ∈ c.body)
    (hne : stmt ≠ .report) :
    (u.exec stmt).1.done.toNat ≤ u.done.toNat ∧
      (u.exec stmt).2.countP Event.isReport = 0 ∧ (u.exec stmt).2.countP Event.isEcho = 0 := by
  cases stmt with
  | report => exact absurd rfl hne
  | rewind | readStart | readEnd | setDone | setDistance | attachUpdate =>
    cases c <;> simp [Call.body, startUpdates, _startTrig, pauseUpdates, changeUpdateSpeed,
      checkDistance, isUpdated] at hstmt
  | _ => simp [exec, Event.isReport, Event.isEcho]

/-- A statement of the thread keeps the balance. -/
theorem pending_exec {s : Sensor} (h : InCall s) {stmt : Stmt} {todo : List Stmt}
    (htodo : s.todo = stmt :: todo) :
    (s.driver.exec stmt).2.countP Event.isReport + Sensor.pending ⟨(s.driver.exec stmt).1, todo⟩ ≤
      s.pending + (s.driver.exec stmt).2.countP Event.isEcho := by
  by_cases hmem : .report ∈ s.todo
  · rcases h.report hmem with hplace | hplace | hplace
    · obtain ⟨rfl, rfl⟩ : stmt = .fetchDone ∧ todo = [.clearDone, .report] := by
        simpa [htodo, checkDistance, isUpdated] using hplace
      simp [Sensor.pending, hplace, exec, checkDistance, isUpdated]
    · obtain ⟨rfl, rfl⟩ : stmt = .clearDone ∧ todo = [.report] := by simpa [htodo] using hplace
      simp [Sensor.pending, hplace, exec]
    · obtain ⟨rfl, rfl⟩ : stmt = .report ∧ todo = [] := by simpa [htodo] using hplace
      by_cases hd : s.driver.d = true
      · simp [Sensor.pending, hplace, exec, hd, Event.isReport, Event.isEcho]
      · simp [Sensor.pending, hplace, exec, hd]
  · obtain ⟨c, hstmt⟩ := h.mem htodo
    have hout : .report ∉ stmt :: todo := htodo ▸ hmem
    obtain ⟨hdone, hreport, hecho⟩ := exec_unreported (u := s.driver) hstmt
      fun heq => hout (heq ▸ List.mem_cons_self)
    rw [hreport, hecho, Sensor.pending, Sensor.pending, if_neg hmem,
      if_neg fun hin => hout (List.mem_cons_of_mem _ hin)]
    simpa using hdone

/-- An interrupt routine raises the balance as far as it raises `done`. -/
theorem pending_interrupt (s : Sensor) {u : Ultrasonic} (hd : u.d = s.driver.d) {n : Nat}
    (hdone : u.done.toNat ≤ s.driver.done.toNat + n) :
    Sensor.pending { s with driver := u } ≤ s.pending + n := by
  simp only [Sensor.pending, hd]
  split_ifs <;> omega

theorem pending_next {s : Sensor} (h : InCall s) {a : Action} (hok : Enabled s a) :
    (sensor.out s a).countP Event.isReport + (sensor.next s a).pending ≤
      s.pending + (sensor.out s a).countP Event.isEcho := by
  cases a with
  | call c =>
    have hidle : s.todo = [] := hok
    have hbefore : s.pending = s.driver.done.toNat := by simp [Sensor.pending, hidle]
    rw [hbefore]
    cases c <;> simp [Machine.next, Machine.out, sensor, sensorStep, Sensor.pending, Call.body,
      startUpdates, _startTrig, pauseUpdates, changeUpdateSpeed, checkDistance, isUpdated]
  | step =>
    cases htodo : s.todo with
    | nil => exact absurd htodo hok
    | cons stmt todo =>
      simpa [Machine.next, Machine.out, sensor, sensorStep, htodo] using pending_exec h htodo
  | rise =>
    simp only [Machine.next, Machine.out, sensor, sensorStep]
    split
    · have hsame : (s.driver.routine _startT).1.d = s.driver.d ∧
          (s.driver.routine _startT).1.done = s.driver.done := by
        rw [routine_startT]
        split <;> exact ⟨rfl, rfl⟩
      have hkept := pending_interrupt s hsame.1 (n := 0) (by rw [hsame.2]; exact le_rfl)
      simpa [routine_startT, Event.isReport, Event.isEcho] using hkept
    · simp
  | fall =>
    simp only [Machine.next, Machine.out, sensor, sensorStep]
    split
    · have hraised := pending_interrupt s (u := (s.driver.routine _updateDist).1) rfl (n := 1)
        (by simp [routine_updateDist])
      simpa [routine_updateDist, Event.isReport, Event.isEcho] using hraised
    · simp
  | fire =>
    have hkept := pending_interrupt s (u := (s.driver.routine _startTrig).1) rfl (n := 0)
      (by simp [routine_startTrig])
    simpa [Machine.next, Machine.out, sensor, sensorStep, routine_startTrig, Event.isReport,
      Event.isEcho] using hkept
  | pass us =>
    have hkept := pending_interrupt s (u := (sensor.next s (.pass us)).driver) rfl (n := 0) le_rfl
    simpa [Machine.next, Machine.out, sensor, sensorStep, Event.isReport, Event.isEcho] using hkept

/-- A call of the update method is due to a measurement of its own, and passes the
    distance of the latest, if the edges have come in time. -/
def Due (pre : List Event) (e : Event) : Prop :=
  ∀ distance, e = .onUpdate distance →
    (Machine.AtEach InTime pre → distance = ((echo pre).pulse / 1830 : Nat)) ∧
      pre.countP Event.isReport < pre.countP Event.isEcho

/-- A step that calls the update method emits nothing else. -/
theorem out_of_report {s : Sensor} {a : Action} {distance : Int}
    (hout : .onUpdate distance ∈ sensor.out s a) :
    sensor.out s a = [.onUpdate distance] ∧ distance = s.driver.distance ∧
      s.driver.d = true ∧ ∃ todo, s.todo = .report :: todo := by
  cases a with
  | call c => cases hout
  | step =>
    cases htodo : s.todo with
    | nil => simp [Machine.out, sensor, sensorStep, htodo] at hout
    | cons stmt todo =>
      simp only [Machine.out, sensor, sensorStep, htodo] at hout ⊢
      cases stmt with
      | report =>
        by_cases hd : s.driver.d = true
        · obtain rfl : distance = s.driver.distance := by simpa [exec, hd] using hout
          exact ⟨by simp [exec, hd], rfl, hd, todo, rfl⟩
        · simp [exec, hd] at hout
      | _ => simp [exec] at hout
  | rise =>
    simp only [Machine.out, sensor, sensorStep, routine_startT] at hout
    split at hout <;> simp at hout
  | fall =>
    simp only [Machine.out, sensor, sensorStep, routine_updateDist] at hout
    split at hout <;> simp at hout
  | fire => simp [Machine.out, sensor, sensorStep, routine_startTrig] at hout
  | pass us => simp [Machine.out, sensor, sensorStep] at hout

theorem Reported.next {tr : List Event} {s : Sensor} (h : Reported tr s) {a : Action}
    (hok : Enabled s a) : Reported (tr ++ sensor.out s a) (sensor.next s a) := by
  refine ⟨h.call.next a, fun hin => (h.timed hin.left).next h.call hin, ?_⟩
  · have hcount := h.count
    have hpending := pending_next h.call hok
    rw [List.countP_append, List.countP_append]
    omega

/-- A thread that comes to a report has a measurement to report. -/
theorem Reported.due {tr : List Event} {s : Sensor} (h : Reported tr s) {a : Action}
    {pre post : List Event} {e : Event} (hout : sensor.out s a = pre ++ e :: post) :
    Due (tr ++ pre) e := by
  rintro distance rfl
  have hmem : .onUpdate distance ∈ sensor.out s a := by rw [hout]; simp
  obtain ⟨hsingle, rfl, hd, todo, htodo⟩ := out_of_report hmem
  obtain rfl : pre = [] := by
    rw [hsingle] at hout
    cases pre with
    | nil => rfl
    | cons e pre => cases pre <;> cases hout
  rw [List.append_nil]
  refine ⟨fun hin => (h.timed hin).distance, ?_⟩
  have hcount := h.count
  have hpending : 0 < s.pending := by
    rcases h.call.report (by simp [htodo]) with hplace | hplace | hplace
    · simp [htodo, checkDistance, isUpdated] at hplace
    · simp [htodo] at hplace
    · simp [Sensor.pending, hplace, hd]
  omega

end Ultrasonic
