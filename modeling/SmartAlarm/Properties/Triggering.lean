-- SUMMARY: The range finder triggers again and again: it never falls silent, the next trigger is due in time, and when a pause takes effect.
import SmartAlarm.Properties.Ranging
import Mathlib.Data.List.Infix

/-!
# Triggering

One timeout drives the range finder. A trigger attaches it for the longer time,
in case that no echo comes; an echo attaches it for the shorter one. What a
thread does in between matters, since `startUpdates` takes the timeout away
before it attaches it again, and `pauseUpdates` takes it away for good.
-/

namespace Ultrasonic

/-! ## No silence -/

/-- The thread is not about to pause. -/
def NotPausing (s : Sensor) : Prop := ∃ c : Call, c ≠ .pauseUpdates ∧ s.todo <:+ c.body

/-- Once the falling edge is attached, so is the rising one, and the timeout is
    attached or the thread is just about to do it. The thread attaches the edges
    before it ends the trigger pulse. -/
structure Listening (s : Sensor) : Prop where
  call : NotPausing s
  rising : .attachFall ∈ s.todo → .attachRise ∉ s.todo → s.driver.rise = true
  falling : .trigLow ∈ s.todo → .attachFall ∉ s.todo → s.driver.fall = true
  rise : s.driver.fall = true → s.driver.rise = true
  armed : s.driver.fall = true → s.driver.tout.isSome ∨ .attachTimeout ∈ s.todo
  pulse : s.driver.trig = true → .trigLow ∈ s.todo

theorem listening_init (updateSpeed timeout : ℚ) : Listening (.init updateSpeed timeout) := by
  refine ⟨⟨.startUpdates, by decide, List.nil_suffix⟩, ?_, ?_, ?_, ?_, ?_⟩ <;>
    simp [Sensor.init, init]

/-- The order of the statements in a trigger. -/
theorem startTrig_tails : ∀ l ∈ _startTrig.tails,
    (l.head? = some .detach → .attachTimeout ∈ l.tail) ∧
      (l.head? = some .attachFall → .attachRise ∉ l ∧ .attachTimeout ∈ l.tail) ∧
      (l.head? = some .trigHigh → .trigLow ∈ l.tail) ∧
      (l.head? = some .trigLow → .attachFall ∉ l) ∧
      (.attachTimeout ∈ l → .trigLow ∈ l) := by
  decide

/-- Of the calls that do not pause, only a trigger has these statements. -/
theorem eq_startUpdates {c : Call} {stmt : Stmt} (hc : c ≠ .pauseUpdates) (hstmt : stmt ∈ c.body)
    (h : stmt ∈ _startTrig) (hne : stmt ≠ .clearDone) : c = .startUpdates := by
  cases c with
  | startUpdates => rfl
  | pauseUpdates => exact absurd rfl hc
  | changeUpdateSpeed v =>
    obtain rfl : stmt = .setUpdateSpeed v := List.mem_singleton.mp hstmt
    simp [_startTrig] at h
  | checkDistance =>
    simp only [Call.body, checkDistance, isUpdated, List.cons_append, List.nil_append,
      List.mem_cons, List.not_mem_nil, or_false] at hstmt
    rcases hstmt with rfl | rfl | rfl
    · simp [_startTrig] at h
    · exact absurd rfl hne
    · simp [_startTrig] at h

section

variable {u : Ultrasonic} {c : Call} {stmt : Stmt}

/-- What a statement does to the edges, the pin and the timeout, in a call other
    than the one that pauses. -/
theorem exec_listening (hc : c ≠ .pauseUpdates) (hstmt : stmt ∈ c.body) :
    ((u.exec stmt).1.rise = true ↔ stmt = .attachRise ∨ u.rise = true) ∧
      ((u.exec stmt).1.fall = true ↔ stmt = .attachFall ∨ u.fall = true) ∧
      ((u.exec stmt).1.trig = true → stmt = .trigHigh ∨ u.trig = true ∧ stmt ≠ .trigLow) ∧
      (stmt ≠ .detach → u.tout.isSome ∨ stmt = .attachTimeout → (u.exec stmt).1.tout.isSome) := by
  cases stmt with
  | attachRise | attachFall | trigHigh | trigLow | detach | attachTimeout => simp [exec]
  | rewind =>
    simp only [exec]
    split <;> simp
  | detachRise | detachFall =>
    cases c <;> simp [Call.body, startUpdates, _startTrig, pauseUpdates, changeUpdateSpeed,
      checkDistance, isUpdated] at hstmt hc
  | _ => simp [exec]

end

/-- A statement of the thread. -/
theorem Listening.exec {s : Sensor} (h : Listening s) {stmt : Stmt} {todo : List Stmt}
    (htodo : s.todo = stmt :: todo) : Listening ⟨(s.driver.exec stmt).1, todo⟩ := by
  obtain ⟨c, hc, hsuffix⟩ := h.call
  rw [htodo] at hsuffix
  obtain ⟨hrise, hfall, htrig, htout⟩ :=
    exec_listening (u := s.driver) hc (hsuffix.mem List.mem_cons_self)
  obtain ⟨-, hrising, hfalling, hattached, harmed, hpulse⟩ := h
  rw [htodo] at hrising hfalling harmed hpulse
  have horder (hmem : stmt ∈ _startTrig) (hne : stmt ≠ .clearDone) := by
    obtain rfl := eq_startUpdates hc (hsuffix.mem List.mem_cons_self) hmem hne
    exact startTrig_tails _ ((List.mem_tails _ _).mpr hsuffix)
  refine ⟨⟨c, hc, (List.suffix_cons _ _).trans hsuffix⟩, ?_, ?_, ?_, ?_, ?_⟩
  · intro hmem hnot
    rw [hrise]
    by_cases hstmt : stmt = .attachRise
    · exact .inl hstmt
    · exact .inr (hrising (List.mem_cons_of_mem _ hmem) (by simp [hnot, Ne.symm hstmt]))
  · intro hmem hnot
    rw [hfall]
    by_cases hstmt : stmt = .attachFall
    · exact .inl hstmt
    · exact .inr (hfalling (List.mem_cons_of_mem _ hmem) (by simp [hnot, Ne.symm hstmt]))
  · intro hon
    rw [hrise]
    rcases hfall.mp hon with rfl | hon
    · exact .inr (hrising List.mem_cons_self ((horder (by decide) (by decide)).2.1 rfl).1)
    · exact .inr (hattached hon)
  · intro hon
    by_cases hdetach : stmt = .detach
    · subst hdetach
      exact .inr ((horder (by decide) (by decide)).1 rfl)
    · rcases hfall.mp hon with rfl | hon
      · exact .inr ((horder (by decide) (by decide)).2.1 rfl).2
      · rcases harmed hon with harmed | hmem
        · exact .inl (htout hdetach (.inl harmed))
        · rcases List.mem_cons.mp hmem with hstmt | hmem
          · exact .inl (htout hdetach (.inr hstmt.symm))
          · exact .inr hmem
  · intro hon
    rcases htrig hon with rfl | ⟨hon, hne⟩
    · exact (horder (by decide) (by decide)).2.2.1 rfl
    · exact (List.mem_cons.mp (hpulse hon)).resolve_left (Ne.symm hne)

/-- An interrupt routine, or the passing of time. -/
theorem Listening.interrupt {s : Sensor} (h : Listening s) {u : Ultrasonic}
    (hrise : s.driver.rise = true → u.rise = true) (hfall : s.driver.fall = true → u.fall = true)
    (hattached : u.fall = true → u.rise = true)
    (harmed : u.fall = true → u.tout.isSome ∨ .attachTimeout ∈ s.todo)
    (htrig : u.trig = true → s.driver.trig = true) : Listening { s with driver := u } :=
  ⟨h.call, fun hmem hnot => hrise (h.rising hmem hnot), fun hmem hnot => hfall (h.falling hmem hnot),
    hattached, harmed, fun hon => h.pulse (htrig hon)⟩

theorem Listening.next {s : Sensor} (h : Listening s) {a : Action} (ha : a ≠ .call .pauseUpdates)
    (hok : Enabled s a) : Listening (sensor.next s a) := by
  cases a with
  | call c =>
    have hidle : s.todo = [] := hok
    have hc : c ≠ .pauseUpdates := fun heq => ha (heq ▸ rfl)
    obtain ⟨-, -, -, hattached, harmed, hpulse⟩ := h
    rw [hidle] at harmed hpulse
    refine ⟨⟨c, hc, List.suffix_rfl⟩, ?_, ?_, hattached, ?_, ?_⟩
    · intro hmem hnot
      obtain rfl := eq_startUpdates hc hmem (by decide) (by decide)
      exact absurd (show .attachRise ∈ _startTrig by decide) hnot
    · intro hmem hnot
      obtain rfl := eq_startUpdates hc hmem (by decide) (by decide)
      exact absurd (show .attachFall ∈ _startTrig by decide) hnot
    · exact fun hon => .inl ((harmed hon).resolve_right List.not_mem_nil)
    · exact fun hon => absurd (hpulse hon) List.not_mem_nil
  | step =>
    cases htodo : s.todo with
    | nil => exact absurd htodo hok
    | cons stmt todo => simpa [Machine.next, sensor, sensorStep, htodo] using h.exec htodo
  | rise =>
    simp only [Machine.next, sensor, sensorStep, routine_startT]
    split
    · split <;> exact h.interrupt id id h.rise h.armed id
    · exact h
  | fall =>
    simp only [Machine.next, sensor, sensorStep, routine_updateDist]
    split
    · exact h.interrupt id id h.rise (fun _ => .inl rfl) id
    · exact h
  | fire =>
    exact h.interrupt (fun _ => rfl) (fun _ => rfl) (fun _ => rfl) (fun _ => .inl rfl)
      fun hon => absurd hon Bool.false_ne_true
  | pass us =>
    refine h.interrupt id id h.rise (fun hon => ?_) id
    simpa using h.armed hon

/-- The trigger pulse is not ended before the falling edge is attached. -/
theorem Listening.trigLow {s : Sensor} (h : Listening s) {a : Action} (hok : Enabled s a)
    (hout : .trig false ∈ sensor.out s a) : (sensor.next s a).driver.fall = true := by
  cases a with
  | call c => cases hout
  | step =>
    cases htodo : s.todo with
    | nil => exact absurd htodo hok
    | cons stmt todo =>
      simp only [Machine.out, Machine.next, sensor, sensorStep, htodo] at hout ⊢
      cases stmt with
      | trigLow =>
        obtain ⟨c, hc, hsuffix⟩ := h.call
        rw [htodo] at hsuffix
        obtain rfl := eq_startUpdates hc (hsuffix.mem List.mem_cons_self) (by decide) (by decide)
        have horder := startTrig_tails _ ((List.mem_tails _ _).mpr hsuffix)
        exact h.falling (by simp [htodo]) (htodo ▸ horder.2.2.2.1 rfl)
      | report =>
        simp only [Ultrasonic.exec] at hout
        split at hout <;> simp at hout
      | _ => simp [Ultrasonic.exec] at hout
  | rise =>
    simp only [Machine.out, sensor, sensorStep, routine_startT] at hout
    split at hout <;> simp at hout
  | fall =>
    simp only [Machine.out, sensor, sensorStep, routine_updateDist] at hout
    split at hout <;> simp at hout
  | fire => rfl
  | pass us => simp [Machine.out, sensor, sensorStep] at hout

/-- An edge that is attached stays attached. -/
theorem Listening.fall_next {s : Sensor} (h : Listening s) (hon : s.driver.fall = true)
    {a : Action} (hok : Enabled s a) : (sensor.next s a).driver.fall = true := by
  cases a with
  | call c | pass us => exact hon
  | step =>
    cases htodo : s.todo with
    | nil => exact absurd htodo hok
    | cons stmt todo =>
      obtain ⟨c, hc, hsuffix⟩ := h.call
      rw [htodo] at hsuffix
      simp only [Machine.next, sensor, sensorStep, htodo]
      exact (exec_listening hc (hsuffix.mem List.mem_cons_self)).2.1.mpr (.inr hon)
  | rise =>
    simp only [Machine.next, sensor, sensorStep, routine_startT]
    split
    · split <;> exact hon
    · exact hon
  | fall =>
    simp only [Machine.next, sensor, sensorStep, routine_updateDist]
    split <;> exact hon
  | fire => rfl

/-- The driver listens once a trigger pulse has ended. -/
def Heard (tr : List Event) (s : Sensor) : Prop :=
  Listening s ∧ (.trig false ∈ tr → s.driver.fall = true)

theorem heard_init (updateSpeed timeout : ℚ) : Heard [] (.init updateSpeed timeout) :=
  ⟨listening_init _ _, nofun⟩

theorem Heard.next {tr : List Event} {s : Sensor} (h : Heard tr s) {a : Action}
    (ha : a ≠ .call .pauseUpdates) (hok : Enabled s a) :
    Heard (tr ++ sensor.out s a) (sensor.next s a) := by
  refine ⟨h.1.next ha hok, fun hmem => ?_⟩
  rcases List.mem_append.mp hmem with hmem | hmem
  · exact h.1.fall_next (h.2 hmem) hok
  · exact h.1.trigLow hok hmem

/-- From the end of the first trigger pulse on, and unless somebody pauses the
    driver: both edges are attached, the next trigger is due or the thread is about
    to attach it, and the trigger pin is high only inside a call. -/
theorem never_silent {updateSpeed timeout : ℚ} {as : List Action}
    (hadm : sensor.Admits (fun s a => Enabled s a ∧ a ≠ .call .pauseUpdates)
      (.init updateSpeed timeout) as)
    (htrig : .trig false ∈ sensor.trace (.init updateSpeed timeout) as) :
    let s := sensor.run (.init updateSpeed timeout) as
    s.driver.rise = true ∧ s.driver.fall = true ∧
      (s.driver.tout.isSome ∨ .attachTimeout ∈ s.todo) ∧
      (s.driver.trig = true → .trigLow ∈ s.todo) := by
  obtain ⟨hlistening, hfall⟩ := sensor.history_of_admits hadm (heard_init updateSpeed timeout)
    fun tr s a h hok => h.next hok.2 hok.1
  have hon := hfall htrig
  exact ⟨hlistening.rise hon, hon, hlistening.armed hon, hlistening.pulse⟩

theorem never_silent_after_startUpdates :
    let s := sensor.run (.init 0.1 1) (.call .startUpdates :: List.replicate 9 .step)
    s.driver.rise = true ∧ s.driver.fall = true ∧
      (s.driver.tout.isSome ∨ .attachTimeout ∈ s.todo) ∧
      (s.driver.trig = true → .trigLow ∈ s.todo) :=
  never_silent (by decide +kernel) (by decide +kernel)

/-! ## The time between triggers -/

/-- Nobody pauses the driver or gives it another period. -/
def Steady (s : Sensor) (a : Action) : Prop :=
  Enabled s a ∧ a ≠ .call .pauseUpdates ∧ ∀ v, a ≠ .call (.changeUpdateSpeed v)

instance decidableSteady (s : Sensor) : ∀ a, Decidable (Steady s a)
  | .call .pauseUpdates => isFalse fun h => h.2.1 rfl
  | .call (.changeUpdateSpeed v) => isFalse fun h => h.2.2 v rfl
  | .call .startUpdates => decidable_of_iff (s.todo = []) (by simp [Steady, Enabled])
  | .call .checkDistance => decidable_of_iff (s.todo = []) (by simp [Steady, Enabled])
  | .step => decidable_of_iff (Enabled s .step) (by simp [Steady])
  | .rise => decidable_of_iff (Enabled s .rise) (by simp [Steady])
  | .fall => decidable_of_iff (Enabled s .fall) (by simp [Steady])
  | .fire => decidable_of_iff (Enabled s .fire) (by simp [Steady])
  | .pass us => decidable_of_iff (Enabled s (.pass us)) (by simp [Steady])

/-- The time since the last trigger pulse, and how many echoes have ended since. -/
structure Wait where
  time : Nat
  echoes : Nat
deriving DecidableEq

def Wait.observe (w : Wait) : Event → Wait
  | .trig false => ⟨0, 0⟩
  | .falling _ => { w with echoes := w.echoes + 1 }
  | .pass us => { w with time := w.time + us }
  | _ => w

def sinceTrigger (events : List Event) : Wait := events.foldl Wait.observe ⟨0, 0⟩

section

variable (updateSpeed timeout : ℚ)

/-- The longest time that the timeout is ever attached for. -/
def longest : Nat := max (microseconds timeout) (microseconds updateSpeed)

/-- The next trigger is due in time, each echo since the last one having put it
    off by another period. -/
structure Punctual (w : Wait) (s : Sensor) : Prop where
  call : ∃ c : Call, c ≠ .pauseUpdates ∧ (∀ v, c ≠ .changeUpdateSpeed v) ∧ s.todo <:+ c.body
  period : s.driver.updateSpeed = updateSpeed
  limit : s.driver.timeout = timeout
  due : ∀ r ∈ s.driver.tout, r ≤ longest updateSpeed timeout
  bound : .trigLow ∉ s.todo → ∀ r ∈ s.driver.tout,
    w.time + r ≤ longest updateSpeed timeout + w.echoes * microseconds updateSpeed

end

section

variable {updateSpeed timeout : ℚ} {w : Wait}

/-- What a statement of the thread does to the timeout and to the wait for it. -/
theorem exec_punctual {u : Ultrasonic} {c : Call} {stmt : Stmt} (hstmt : stmt ∈ c.body)
    (hspeed : ∀ v, c ≠ .changeUpdateSpeed v) :
    (u.exec stmt).1.updateSpeed = u.updateSpeed ∧ (u.exec stmt).1.timeout = u.timeout ∧
      (u.exec stmt).1.tout =
        (if stmt = .detach then none
        else if stmt = .attachTimeout then some (microseconds u.timeout) else u.tout) ∧
      (u.exec stmt).2.foldl Wait.observe w = if stmt = .trigLow then ⟨0, 0⟩ else w := by
  cases stmt with
  | report => by_cases hd : u.d = true <;> simp [exec, hd, Wait.observe]
  | rewind | readStart | readEnd | setDone | setDistance | attachUpdate =>
    cases c <;> simp [Call.body, startUpdates, _startTrig, pauseUpdates, changeUpdateSpeed,
      checkDistance, isUpdated] at hstmt
  | setUpdateSpeed v =>
    cases c with
    | changeUpdateSpeed v' => exact absurd rfl (hspeed v')
    | _ => simp [Call.body, startUpdates, _startTrig, pauseUpdates, checkDistance, isUpdated] at hstmt
  | _ => simp [exec, Wait.observe]

/-- A statement of the thread. -/
theorem Punctual.exec {s : Sensor} (h : Punctual updateSpeed timeout w s) {stmt : Stmt}
    {todo : List Stmt} (htodo : s.todo = stmt :: todo) :
    Punctual updateSpeed timeout ((s.driver.exec stmt).2.foldl Wait.observe w)
      ⟨(s.driver.exec stmt).1, todo⟩ := by
  obtain ⟨c, hc, hspeed, hsuffix⟩ := h.call
  rw [htodo] at hsuffix
  have hstmt := hsuffix.mem List.mem_cons_self
  obtain ⟨hperiod, hlimit, htout, hwait⟩ := exec_punctual (u := s.driver) (w := w) hstmt hspeed
  have hdue : ∀ r ∈ (s.driver.exec stmt).1.tout, r ≤ longest updateSpeed timeout := by
    intro r hr
    rw [htout] at hr
    split at hr
    · cases hr
    · split at hr
      · obtain rfl := Option.some.inj hr
        rw [h.limit]
        exact le_max_left _ _
      · exact h.due r hr
  have hcall := (List.suffix_cons _ _).trans hsuffix
  refine ⟨⟨c, hc, hspeed, hcall⟩, hperiod.trans h.period, hlimit.trans h.limit, hdue,
    fun hnot r hr => ?_⟩
  rw [hwait]
  by_cases hlow : stmt = .trigLow
  · rw [if_pos hlow]
    exact (Nat.zero_add r).le.trans ((hdue r hr).trans (Nat.le_add_right _ _))
  · rw [if_neg hlow]
    rw [htout] at hr
    split at hr
    · cases hr
    · split at hr
      · rename_i hattach
        subst hattach
        obtain rfl := eq_startUpdates hc hstmt (by decide) (by decide)
        have horder := startTrig_tails _ ((List.mem_tails _ _).mpr hsuffix)
        exact absurd (horder.2.2.2.2 List.mem_cons_self) (by simp [hnot])
      · exact h.bound (by simp [htodo, hnot, Ne.symm hlow]) r hr

/-- The timeout is attached whenever the thread is not in a trigger. -/
theorem Listening.isSome {s : Sensor} (h : Listening s) (hon : s.driver.fall = true)
    (hnot : .trigLow ∉ s.todo) : s.driver.tout.isSome := by
  obtain ⟨c, hc, hsuffix⟩ := h.call
  refine (h.armed hon).resolve_right fun hmem => hnot ?_
  obtain rfl := eq_startUpdates hc (hsuffix.mem hmem) (by decide) (by decide)
  exact (startTrig_tails _ ((List.mem_tails _ _).mpr hsuffix)).2.2.2.2 hmem

/-- An echo attaches the timeout anew. -/
theorem Punctual.updateDist {s : Sensor} (h : Punctual updateSpeed timeout w s) (hs : Listening s)
    (hon : s.driver.fall = true) :
    Punctual updateSpeed timeout { w with echoes := w.echoes + 1 }
      { s with driver := (s.driver.routine _updateDist).1 } := by
  refine ⟨h.call, h.period, h.limit, fun r hr => ?_, fun hnot r hr => ?_⟩
  · obtain rfl := Option.some.inj hr
    rw [h.period]
    exact le_max_right _ _
  · obtain rfl := Option.some.inj hr
    obtain ⟨due, hdue⟩ := Option.isSome_iff_exists.mp (hs.isSome hon hnot)
    have hbound := h.bound hnot due hdue
    simp only [h.period, Nat.add_mul]
    omega

theorem Punctual.next {s : Sensor} (h : Punctual updateSpeed timeout w s) (hs : Listening s)
    {a : Action} (hok : Steady s a) :
    Punctual updateSpeed timeout ((sensor.out s a).foldl Wait.observe w) (sensor.next s a) := by
  cases a with
  | call c =>
    have hidle : s.todo = [] := hok.1
    refine ⟨⟨c, fun heq => hok.2.1 (heq ▸ rfl), fun v heq => hok.2.2 v (heq ▸ rfl),
      List.suffix_rfl⟩, h.period, h.limit, h.due, fun _ => h.bound (by simp [hidle])⟩
  | step =>
    cases htodo : s.todo with
    | nil => exact absurd htodo hok.1
    | cons stmt todo =>
      simpa [Machine.next, Machine.out, sensor, sensorStep, htodo] using h.exec htodo
  | rise =>
    simp only [Machine.next, Machine.out, sensor, sensorStep, routine_startT]
    split
    · split <;> exact ⟨h.call, h.period, h.limit, h.due, h.bound⟩
    · exact h
  | fall =>
    simp only [Machine.next, Machine.out, sensor, sensorStep]
    split
    · rename_i hon
      exact h.updateDist hs hon
    · exact h
  | fire =>
    have hattached : ∀ r ∈ (sensor.next s .fire).driver.tout, r ≤ longest updateSpeed timeout := by
      intro r hr
      obtain rfl := Option.some.inj hr
      rw [h.limit]
      exact le_max_left _ _
    refine ⟨h.call, h.period, h.limit, hattached, fun _ r hr => ?_⟩
    exact (Nat.zero_add r).le.trans ((hattached r hr).trans (Nat.le_add_right _ _))
  | pass us =>
    have hwait : ∀ r ∈ (sensor.next s (.pass us)).driver.tout,
        ∃ due ∈ s.driver.tout, us ≤ due ∧ r = due - us := by
      intro r hr
      obtain ⟨due, hdue, rfl⟩ := Option.map_eq_some_iff.mp hr
      exact ⟨due, hdue, hok.1 due hdue, rfl⟩
    refine ⟨h.call, h.period, h.limit, fun r hr => ?_, fun hnot r hr => ?_⟩
    · obtain ⟨due, hdue, -, rfl⟩ := hwait r hr
      exact (Nat.sub_le _ _).trans (h.due due hdue)
    · obtain ⟨due, hdue, hle, rfl⟩ := hwait r hr
      have hbound := h.bound hnot due hdue
      simp only [Machine.out, sensor, sensorStep, List.foldl_cons, List.foldl_nil, Wait.observe]
      omega

end

theorem punctual_init (updateSpeed timeout : ℚ) :
    Punctual updateSpeed timeout ⟨0, 0⟩ (.init updateSpeed timeout) :=
  ⟨⟨.startUpdates, by decide, nofun, List.nil_suffix⟩, rfl, rfl, nofun, fun _ => nofun⟩

/-- Once a trigger pulse has ended, the timeout is attached whenever the thread is not
    in another one, and its wait is bounded. -/
theorem punctual_run {updateSpeed timeout : ℚ} {as : List Action}
    (hadm : sensor.Admits Steady (.init updateSpeed timeout) as) :
    Heard (sensor.trace (.init updateSpeed timeout) as) (sensor.run (.init updateSpeed timeout) as) ∧
      Punctual updateSpeed timeout (sinceTrigger (sensor.trace (.init updateSpeed timeout) as))
        (sensor.run (.init updateSpeed timeout) as) := by
  have hstep (tr : List Event) (s : Sensor) (a : Action)
      (h : Heard tr s ∧ Punctual updateSpeed timeout (sinceTrigger tr) s) (hok : Steady s a) :
      Heard (tr ++ sensor.out s a) (sensor.next s a) ∧
        Punctual updateSpeed timeout (sinceTrigger (tr ++ sensor.out s a)) (sensor.next s a) := by
    refine ⟨h.1.next hok.2.1 hok.1, ?_⟩
    rw [sinceTrigger, List.foldl_append]
    exact h.2.next h.1.1 hok
  exact sensor.history_of_admits hadm
    ⟨heard_init updateSpeed timeout, punctual_init updateSpeed timeout⟩ hstep

/-- Once a trigger pulse has ended, and while the thread is not in another one, the
    next trigger is due: at the latest after the longest time that the timeout is
    attached for and one period more for each echo since. -/
theorem next_trigger_due {updateSpeed timeout : ℚ} {as : List Action}
    (hadm : sensor.Admits Steady (.init updateSpeed timeout) as)
    (htrig : .trig false ∈ sensor.trace (.init updateSpeed timeout) as)
    (hout : .trigLow ∉ (sensor.run (.init updateSpeed timeout) as).todo) :
    ∃ r, (sensor.run (.init updateSpeed timeout) as).driver.tout = some r ∧
      (sinceTrigger (sensor.trace (.init updateSpeed timeout) as)).time + r ≤
        longest updateSpeed timeout +
          (sinceTrigger (sensor.trace (.init updateSpeed timeout) as)).echoes *
            microseconds updateSpeed := by
  obtain ⟨⟨hlistening, hfall⟩, hpunctual⟩ := punctual_run hadm
  obtain ⟨r, hr⟩ := Option.isSome_iff_exists.mp (hlistening.isSome (hfall htrig) hout)
  exact ⟨r, hr, hpunctual.bound hout r hr⟩

/-- A pulse of three units is timed, and its report fetched, while the next trigger
    is due in a tenth of a second. -/
def measuring : List Action :=
  .call .startUpdates :: List.replicate 9 .step ++
    [.rise, .pass 5490, .fall, .call .checkDistance, .step, .step, .step, .pass 100000]

theorem next_trigger_due_measuring :
    ∃ r, (sensor.run (.init 0.1 1) measuring).driver.tout = some r ∧
      (sinceTrigger (sensor.trace (.init 0.1 1) measuring)).time + r ≤
        longest 0.1 1 +
          (sinceTrigger (sensor.trace (.init 0.1 1) measuring)).echoes * microseconds 0.1 :=
  next_trigger_due (by decide +kernel) (by decide +kernel) (by decide +kernel)

/-! ## Pausing -/

/-- Neither an edge nor the timeout can call a routine. -/
structure Paused (s : Sensor) : Prop where
  rise : s.driver.rise = false
  fall : s.driver.fall = false
  tout : s.driver.tout = none

/-- The rest of `pauseUpdates` behind its first statement, in which the edges are
    still attached. An echo that ends there attaches the timeout again. -/
structure Pausing (tr : List Event) (s : Sensor) : Prop where
  call : s.todo <:+ [.detachRise, .detachFall]
  tout : s.driver.tout = none ↔ tr.countP Event.isEcho = 0
  rise : s.driver.tout = none → .detachRise ∉ s.todo → s.driver.rise = false
  fall : s.driver.tout = none → .detachFall ∉ s.todo → s.driver.fall = false

/-- The thread executes its next statement. -/
theorem Pausing.exec {tr : List Event} {s : Sensor} (h : Pausing tr s) (hok : s.todo ≠ []) :
    Pausing (tr ++ sensor.out s .step) (sensor.next s .step) := by
  have hplace := h.call
  simp only [List.suffix_cons_iff, List.suffix_nil] at hplace
  rcases hplace with htodo | htodo | htodo
  · have hnext : sensor.step s .step =
        (⟨{ s.driver with rise := false }, [.detachFall]⟩, []) := by
      simp [sensor, sensorStep, htodo, Ultrasonic.exec]
    rw [Machine.next, Machine.out, hnext, List.append_nil]
    exact ⟨List.suffix_cons _ _, h.tout, fun _ _ => rfl, fun _ hnot => absurd List.mem_cons_self hnot⟩
  · have hnext : sensor.step s .step = (⟨{ s.driver with fall := false }, []⟩, []) := by
      simp [sensor, sensorStep, htodo, Ultrasonic.exec]
    rw [Machine.next, Machine.out, hnext, List.append_nil]
    exact ⟨List.nil_suffix, h.tout, fun hnone _ => h.rise hnone (by simp [htodo]), fun _ _ => rfl⟩
  · exact absurd htodo hok

theorem Pausing.next {tr : List Event} {s : Sensor} (h : Pausing tr s) {a : Action}
    (hok : Enabled s a) (ha : ∀ c, a ≠ .call c) :
    Pausing (tr ++ sensor.out s a) (sensor.next s a) := by
  cases a with
  | call c => exact absurd rfl (ha c)
  | step => exact h.exec hok
  | rise =>
    have hecho : (sensor.out s .rise).countP Event.isEcho = 0 := by
      simp only [Machine.out, sensor, sensorStep, routine_startT]
      split <;> simp [Event.isEcho]
    have hsame : (sensor.next s .rise).todo = s.todo ∧
        (sensor.next s .rise).driver.tout = s.driver.tout ∧
        (sensor.next s .rise).driver.rise = s.driver.rise ∧
        (sensor.next s .rise).driver.fall = s.driver.fall := by
      simp only [Machine.next, sensor, sensorStep, routine_startT]
      split
      · split <;> exact ⟨rfl, rfl, rfl, rfl⟩
      · exact ⟨rfl, rfl, rfl, rfl⟩
    obtain ⟨htodo, htout, hrise, hfall⟩ := hsame
    refine ⟨htodo ▸ h.call, ?_, ?_, ?_⟩
    · rw [htout, List.countP_append, hecho, Nat.add_zero]
      exact h.tout
    · rw [htout, htodo, hrise]
      exact h.rise
    · rw [htout, htodo, hfall]
      exact h.fall
  | fall =>
    simp only [Machine.next, Machine.out, sensor, sensorStep, routine_updateDist]
    split
    · exact ⟨h.call, by simp [Event.isEcho], fun hnone => absurd hnone (Option.some_ne_none _),
        fun hnone => absurd hnone (Option.some_ne_none _)⟩
    · rwa [List.append_nil]
  | fire =>
    have hecho := (not_congr h.tout).mp (by
      rw [show s.driver.tout = some 0 from hok]
      exact Option.some_ne_none 0)
    refine ⟨h.call, ?_, fun hnone => absurd hnone (Option.some_ne_none _),
      fun hnone => absurd hnone (Option.some_ne_none _)⟩
    rw [List.countP_append]
    exact iff_of_false (Option.some_ne_none _) (by omega)
  | pass us =>
    have hnone : (sensor.next s (.pass us)).driver.tout = none ↔ s.driver.tout = none :=
      Option.map_eq_none_iff
    refine ⟨h.call, ?_, fun hout => h.rise (hnone.mp hout), fun hout => h.fall (hnone.mp hout)⟩
    rw [hnone, h.tout, List.countP_append]
    simp [Machine.out, sensor, sensorStep, Event.isEcho]

/-- Once `pauseUpdates` has returned the driver is at rest exactly if no echo ended
    behind the first statement of the call. -/
theorem paused_iff_no_echo {s : Sensor} (hcall : s.todo = pauseUpdates) {as : List Action}
    (hadm : sensor.Admits (fun t a => Enabled t a ∧ ∀ c, a ≠ .call c) (sensor.next s .step) as)
    (hreturned : (sensor.run (sensor.next s .step) as).todo = []) :
    Paused (sensor.run (sensor.next s .step) as) ↔
      (sensor.trace (sensor.next s .step) as).countP Event.isEcho = 0 := by
  have hdetached : sensor.next s .step =
      ⟨{ s.driver with tout := none }, [.detachRise, .detachFall]⟩ := by
    simp [Machine.next, sensor, sensorStep, hcall, pauseUpdates, exec]
  have hstart : Pausing [] (sensor.next s .step) := by
    rw [hdetached]
    exact ⟨List.suffix_rfl, by simp, by simp, by simp⟩
  have hpausing := sensor.history_of_admits hadm hstart fun tr t a h hok => h.next hok.1 hok.2
  rw [← hpausing.tout]
  refine ⟨Paused.tout, fun hnone => ⟨?_, ?_, hnone⟩⟩
  · exact hpausing.rise hnone (by simp [hreturned])
  · exact hpausing.fall hnone (by simp [hreturned])

/-- An echo ends between the first two statements. -/
theorem not_paused_of_echo :
    let s := sensor.run (.init 0.1 1)
      (.call .startUpdates :: List.replicate 9 .step ++ [.call .pauseUpdates])
    ¬ Paused (sensor.run (sensor.next s .step) [.fall, .step, .step]) := by
  intro s hpaused
  have hadm : sensor.Admits (fun t a => Enabled t a ∧ ∀ c, a ≠ .call c) (sensor.next s .step)
      [.fall, .step, .step] := by
    refine ⟨⟨trivial, nofun⟩, ⟨?_, nofun⟩, ⟨?_, nofun⟩, trivial⟩ <;> decide +kernel
  have hecho := (paused_iff_no_echo (by decide +kernel) hadm (by decide +kernel)).mp hpaused
  exact absurd hecho (by decide +kernel)

/-- Only time and reports of what was measured before are seen of a driver at rest. -/
def Event.isIdle : Event → Bool
  | .pass _ | .onUpdate _ => true
  | _                     => false

/-- No thread is inside `startUpdates`. -/
def NotStarting (s : Sensor) : Prop := ∃ c : Call, c ≠ .startUpdates ∧ s.todo <:+ c.body

theorem Paused.next {s : Sensor} (h : Paused s) (hcall : NotStarting s) {a : Action}
    (hok : Enabled s a) (ha : a ≠ .call .startUpdates) :
    Paused (sensor.next s a) ∧ NotStarting (sensor.next s a) ∧
      ∀ e ∈ sensor.out s a, e.isIdle = true := by
  cases a with
  | call c =>
    refine ⟨⟨h.rise, h.fall, h.tout⟩, ⟨c, fun heq => ha (heq ▸ rfl), List.suffix_rfl⟩, ?_⟩
    exact fun e he => absurd he List.not_mem_nil
  | step =>
    cases htodo : s.todo with
    | nil => exact absurd htodo hok
    | cons stmt todo =>
      obtain ⟨c, hc, hsuffix⟩ := hcall
      rw [htodo] at hsuffix
      have hstmt := hsuffix.mem List.mem_cons_self
      simp only [Machine.next, Machine.out, NotStarting, sensor, sensorStep, htodo]
      refine ⟨?_, ⟨c, hc, (List.suffix_cons _ _).trans hsuffix⟩, ?_⟩
      · cases stmt with
        | attachRise | attachFall | attachTimeout | attachUpdate | rewind =>
          cases c <;> simp [Call.body, startUpdates, pauseUpdates, changeUpdateSpeed,
            checkDistance, isUpdated] at hstmt hc
        | _ => exact ⟨by simp [exec, h.rise], by simp [exec, h.fall], by simp [exec, h.tout]⟩
      · cases stmt with
        | trigHigh | trigLow | readStart | setDistance =>
          cases c <;> simp [Call.body, startUpdates, pauseUpdates, changeUpdateSpeed,
            checkDistance, isUpdated] at hstmt hc
        | report =>
          intro e he
          simp only [exec] at he
          split at he
          · exact List.mem_singleton.mp he ▸ rfl
          · cases he
        | _ => exact fun e he => absurd he List.not_mem_nil
  | rise =>
    have hstep : sensor.step s .rise = (s, []) := by simp [sensor, sensorStep, h.rise]
    rw [Machine.next, Machine.out, hstep]
    exact ⟨h, hcall, fun e he => absurd he List.not_mem_nil⟩
  | fall =>
    have hstep : sensor.step s .fall = (s, []) := by simp [sensor, sensorStep, h.fall]
    rw [Machine.next, Machine.out, hstep]
    exact ⟨h, hcall, fun e he => absurd he List.not_mem_nil⟩
  | fire =>
    have hdue : s.driver.tout = some 0 := hok
    rw [h.tout] at hdue
    cases hdue
  | pass us =>
    refine ⟨⟨h.rise, h.fall, ?_⟩, hcall, fun e he => ?_⟩
    · exact Option.map_eq_none_iff.mpr h.tout
    · exact List.mem_singleton.mp he ▸ rfl

/-- A driver at rest stays at rest, and times and triggers nothing, until somebody
    starts the updates again. -/
theorem paused_run {s : Sensor} (h : Paused s) (hcall : NotStarting s) {as : List Action}
    (hadm : sensor.Admits (fun t a => Enabled t a ∧ a ≠ .call .startUpdates) s as) :
    Paused (sensor.run s as) ∧ ∀ e ∈ sensor.trace s as, e.isIdle = true := by
  have hstep (tr : List Event) (t : Sensor) (a : Action)
      (ht : (Paused t ∧ NotStarting t) ∧ ∀ e ∈ tr, e.isIdle = true)
      (hok : Enabled t a ∧ a ≠ .call .startUpdates) :
      (Paused (sensor.next t a) ∧ NotStarting (sensor.next t a)) ∧
        ∀ e ∈ tr ++ sensor.out t a, e.isIdle = true := by
    obtain ⟨hnext, hcall', hout⟩ := ht.1.1.next ht.1.2 hok.1 hok.2
    exact ⟨⟨hnext, hcall'⟩, fun e he => (List.mem_append.mp he).elim (ht.2 e) (hout e)⟩
  have hrun := sensor.history_of_admits hadm ⟨⟨h, hcall⟩, nofun⟩ hstep
  exact ⟨hrun.1.1, hrun.2⟩

/-- `checkDistance` is called on a paused driver, and a late echo comes before it is done. -/
theorem paused_run_late_echo :
    let s := sensor.run (.init 0.1 1)
      (.call .startUpdates :: List.replicate 9 .step ++ .call .pauseUpdates ::
        List.replicate 3 .step ++ [.call .checkDistance, .step])
    Paused (sensor.run s [.rise, .pass 2000000, .fall]) ∧
      ∀ e ∈ sensor.trace s [.rise, .pass 2000000, .fall], e.isIdle = true := by
  intro s
  have hpaused : Paused s := by
    refine ⟨?_, ?_, ?_⟩ <;> decide +kernel
  refine paused_run hpaused ⟨.checkDistance, by decide, by decide +kernel⟩ ?_
  refine ⟨⟨trivial, nofun⟩, ⟨?_, nofun⟩, ⟨trivial, nofun⟩, trivial⟩
  decide +kernel

end Ultrasonic
