-- SUMMARY: The alarms of a run and what each of them accepts before it is left: the first its whole pattern, the later ones nothing.
import SmartAlarm.Properties.AlarmPasses

/-!
# Alarms over a whole run

Nothing sets `inputCount` back when an alarm is left. The letters that an alarm
accepts are those of its pattern from the place where the counter stood at its
entry: at 0 for the first alarm, at 4 for all others.
-/

namespace Firmware

open LedSequence

/-- An entry into the alarm branch: the pattern selected for it, the letters
    accepted since, and whether the branch has been left. -/
structure Alarm where
  pattern : List Char
  accepted : List Char
  left : Bool
deriving DecidableEq, Repr

/-- What an event adds to the alarms so far, the latest of which comes first. -/
def observe (past : List Alarm) (e : Event) : List Alarm :=
  match e, past with
  | .pass _ _ true, past => ⟨[], [], false⟩ :: past
  | .ledSelect p, a :: past => { a with pattern := p } :: past
  | .accept c, a :: past => { a with accepted := a.accepted ++ [c] } :: past
  | .leave, a :: past => { a with left := true } :: past
  | _, past => past

/-- The alarms of a trace, latest first. -/
def alarms (tr : List Event) : List Alarm := tr.foldl observe []

/-! ## Signals are not observed -/

theorem observe_of_isSignal {e : Event} (h : e.isSignal = true) (past : List Alarm) :
    observe past e = past := by
  cases e with
  | timer t op => rfl
  | speakerInit => rfl
  | turnOffSpeaker => rfl
  | turnOffColor => rfl
  | ledRepeatSequence q => rfl
  | lamp l => rfl
  | _ => cases h

theorem foldl_observe_of_isSignal {events : List Event} (h : ∀ e ∈ events, e.isSignal = true)
    (past : List Alarm) : events.foldl observe past = past := by
  induction events with
  | nil => rfl
  | cons e events ih =>
    rw [List.foldl_cons, observe_of_isSignal (h e List.mem_cons_self)]
    exact ih fun e he => h e (List.mem_cons_of_mem _ he)

/-! ## The counter between alarms -/

/-- Where `inputCount` stands when the branch is entered after the alarms `earlier`. -/
def entryCount (earlier : List Alarm) : Nat := if earlier = [] then 0 else 4

/-- Every alarm has been left, after it had accepted the rest of its pattern. -/
inductive Settled : List Alarm → Prop where
  | nil : Settled []
  | cons {p : List Char} {earlier : List Alarm} (hp : p.length = 4) (h : Settled earlier) :
      Settled (⟨p, p.drop (entryCount earlier), true⟩ :: earlier)

theorem Settled.of_append {later past : List Alarm} (h : Settled (later ++ past)) :
    Settled past := by
  induction later with
  | nil => exact h
  | cons a later ih =>
    cases h with
    | cons hp h => exact ih h

/-- `main` outside the branch. -/
structure Idle (past : List Alarm) (g : Globals) : Prop where
  settled : Settled past
  count : g.inputCount = entryCount past

/-- `main` in the branch, before the pattern is selected. -/
structure Entering (past : List Alarm) (g : Globals) : Prop where
  alarm : ∃ earlier, past = ⟨[], [], false⟩ :: earlier ∧ Idle earlier g

/-- `main` in the branch with the pattern in `ledColorSeq`. -/
structure Answering (past : List Alarm) (g : Globals) : Prop where
  pattern : g.ledColorSeq.length = 4
  alarm : ∃ earlier,
    past = ⟨g.ledColorSeq, (g.ledColorSeq.take g.inputCount).drop (entryCount earlier), false⟩ ::
      earlier ∧
    Settled earlier ∧ entryCount earlier ≤ g.inputCount ∧ g.inputCount ≤ 4

/-- The alarms so far, by the place where `main` is. -/
def Ledger (past : List Alarm) (m : MainState) : Prop :=
  match m.pc with
  | .stopA | .stopB | .ring | .select => Entering past m.globals
  | .rearm | .disarm => Answering past m.globals
  | _ => Idle past m.globals

theorem entryCount_le (earlier : List Alarm) : entryCount earlier ≤ 4 := by
  unfold entryCount
  split <;> decide

/-! ## One step -/

theorem Answering.select {past : List Alarm} {g : Globals} (h : Entering past g)
    (rand : Nat → Nat) (hready : g.game.Ready) :
    let selected := ledSelect rand g.game
    Answering (observe past (.ledSelect selected.pattern))
      { g with ledColorSeq := selected.pattern, game := selected.game } := by
  obtain ⟨earlier, rfl, hidle⟩ := h.alarm
  have hlength : (ledSelect rand g.game).pattern.length = 4 := by
    rw [ledSelect_pattern rand hready, Pattern.length_eq]
  refine ⟨hlength, earlier, ?_, hidle.settled, hidle.count.ge, ?_⟩
  · simp [observe, hidle.count]
  · rw [hidle.count]
    exact entryCount_le earlier

/-- A pass of the disarm loop adds at most the letter that comes next. -/
theorem Answering.disarmPass {past : List Alarm} {g : Globals} (h : Answering past g)
    (hloop : g.inputCount < 4) (i : Samples) :
    Answering ((disarmPass i g).2.foldl observe past) (disarmPass i g).1 := by
  obtain ⟨hlength, earlier, rfl, hsettled, hle, -⟩ := h
  have hseq := disarmPass_ledColorSeq i g
  rcases disarmPass_cases i g with ⟨c, events, hwant, hcount, heq, hsig⟩ | ⟨hcount, hsig⟩
  · refine ⟨by rw [hseq, hlength], earlier, ?_, hsettled, by omega, by omega⟩
    rw [heq, List.foldl_append, foldl_observe_of_isSignal hsig, hseq, hcount, List.take_add_one,
      hwant, List.drop_append_of_le_length (by rw [List.length_take]; omega)]
    rfl
  · refine ⟨by rw [hseq, hlength], earlier, ?_, hsettled, by omega, by omega⟩
    rw [foldl_observe_of_isSignal hsig, hseq, hcount]

/-- The loop is left with the counter at 4. -/
theorem Answering.leave {past : List Alarm} {g : Globals} (h : Answering past g)
    (hloop : ¬ g.inputCount < 4) : Idle (observe past .leave) g := by
  obtain ⟨hlength, earlier, rfl, hsettled, -, hle⟩ := h
  have hcount : g.inputCount = 4 := by omega
  have htake : g.ledColorSeq.take g.inputCount = g.ledColorSeq :=
    List.take_of_length_le (by omega)
  rw [htake]
  exact ⟨.cons hlength hsettled, hcount⟩

theorem Ledger.step {past : List Alarm} {m : MainState} (h : Ledger past m)
    (hready : m.globals.game.Ready) (i : Inputs) :
    Ledger ((mainThread.out m i).foldl observe past) (mainThread.next m i) := by
  unfold Ledger at h
  simp only [Machine.out, Machine.next, mainThread, mainStep]
  cases hpc : m.pc with
  | setTime =>
    simp only [hpc] at h
    by_cases hset : i.set = true
    · simp only [hset, if_true]
      exact h
    · simp only [hset, if_false, Bool.false_eq_true]
      cases (TimeDisplay.setTimePoll m.seconds i.hour i.minute).2 with
      | none => simpa [Ledger, hpc] using h
      | some n => simpa [Ledger, hpc, observe] using h
  | top =>
    simp only [hpc] at h
    exact ⟨h.settled, h.count⟩
  | launch =>
    simp only [hpc] at h
    by_cases hresult : m.result = true
    · simp only [hresult, if_true]
      exact h
    · simp only [hresult, if_false, Bool.false_eq_true]
      exact h
  | compare =>
    simp only [hpc] at h
    by_cases heq : m.globals.currentAlarmTime = m.globals.currentTime
    · simp only [heq, if_true]
      exact ⟨past, rfl, h⟩
    · simp only [heq, if_false]
      exact h
  | startSpeaker | startLED | stopA | stopB | ring =>
    simp only [hpc] at h
    exact h
  | select =>
    simp only [hpc] at h
    have hlamps : ∀ e ∈ (ledSelect i.rand m.globals.game).events.map Event.lamp,
        e.isSignal = true := by
      intro e he
      obtain ⟨l, -, rfl⟩ := List.mem_map.mp he
      rfl
    simp only [selectStep, List.foldl_cons, foldl_observe_of_isSignal hlamps]
    exact Answering.select h i.rand hready
  | rearm =>
    simp only [hpc] at h
    exact ⟨h.pattern, h.alarm⟩
  | disarm =>
    simp only [hpc] at h
    by_cases hloop : m.globals.inputCount < 4
    · simp only [hloop, if_true, Ledger]
      exact h.disarmPass hloop i.toSamples
    · simp only [hloop, if_false]
      exact h.leave hloop

theorem ready_mainThread {m : MainState} (h : m.globals.game.Ready) (i : Inputs) :
    (mainThread.next m i).globals.game.Ready := by
  simp only [Machine.next, mainThread, mainStep]
  cases m.pc with
  | setTime =>
    by_cases hset : i.set = true
    · simpa [hset] using h
    · simpa [hset] using h
  | compare =>
    simp only
    split
    · exact h
    · exact h
  | select => exact ready_ledSelect i.rand h
  | disarm =>
    simp only
    split
    · exact ready_disarmPass h
    · exact h
  | _ => exact h

/-! ## Whole runs -/

theorem ledger_run (is : List Inputs) :
    Ledger (alarms (mainThread.trace MainState.init is)) (mainThread.run MainState.init is) := by
  let J : List Inputs → List Event → MainState → Prop :=
    fun _ tr m => m.globals.game.Ready ∧ Ledger (alarms tr) m
  have hinit : J [] [] MainState.init := ⟨Game.ready_init, (⟨.nil, rfl⟩ : Idle [] Globals.init)⟩
  refine (mainThread.history (J := J) hinit ?_ is).2
  intro _ tr m i ⟨hready, hledger⟩
  refine ⟨ready_mainThread hready i, ?_⟩
  rw [alarms, List.foldl_append]
  exact hledger.step hready i

/-- An alarm that has been left lies in the settled past. -/
theorem Ledger.settled {later earlier : List Alarm} {a : Alarm} {m : MainState}
    (h : Ledger (later ++ a :: earlier) m) (hleft : a.left = true) : Settled (a :: earlier) := by
  have hopen : ∀ {b : Alarm} {past : List Alarm}, later ++ a :: earlier = b :: past →
      b.left = false → Settled past → Settled (a :: earlier) := by
    intro b past heq hb hsettled
    cases later with
    | nil =>
      obtain ⟨rfl, rfl⟩ : a = b ∧ earlier = past := by simpa using heq
      rw [hleft] at hb
      cases hb
    | cons b' later =>
      obtain ⟨-, rfl⟩ : b' = b ∧ later ++ a :: earlier = past := by simpa using heq
      exact hsettled.of_append
  unfold Ledger at h
  cases hpc : m.pc with
  | stopA | stopB | ring | select =>
    simp only [hpc] at h
    obtain ⟨past, heq, hidle⟩ := h.alarm
    exact hopen heq rfl hidle.settled
  | rearm | disarm =>
    simp only [hpc] at h
    obtain ⟨past, heq, hsettled, -, -⟩ := h.alarm
    exact hopen heq rfl hsettled
  | setTime | startSpeaker | startLED | top | launch | compare =>
    simp only [hpc] at h
    exact h.settled.of_append

/-- In every run, an alarm that has been left was disarmed by its own pattern
    exactly if it was the first one. -/
theorem disarmed_by_own_pattern_iff (is : List Inputs) (later earlier : List Alarm) (a : Alarm)
    (h : alarms (mainThread.trace MainState.init is) = later ++ a :: earlier)
    (hleft : a.left = true) : a.accepted = a.pattern ↔ earlier = [] := by
  have hledger := ledger_run is
  rw [h] at hledger
  cases hledger.settled hleft with
  | cons hp hsettled =>
    by_cases hfirst : earlier = []
    · simp [entryCount, hfirst]
    · rename_i p
      have hne : [] ≠ p := by
        rintro rfl
        cases hp
      simpa [entryCount, hfirst, List.drop_of_length_le hp.le] using hne

/-- The eight steps from the top of the main loop to `wait(10)`, with the clock at `t`. -/
def alarmSteps (t : Nat) : List Inputs := List.replicate 8 (.showing t none)

/-- The inputs that set the clock at once and then meet the first alarm, which
    the letters `abcd` disarm. -/
def firstAlarm : List Inputs :=
  List.replicate 3 (.showing 0 none) ++ alarmSteps 0 ++
    ['a', 'b', 'c', 'd'].map (fun c => .showing 0 (some c)) ++ [.showing 0 none]

/-- The first alarm is disarmed by its own pattern. -/
theorem first_alarm_disarmed :
    ∃ a, alarms (mainThread.trace MainState.init firstAlarm) = [] ++ [a] ∧ a.left = true ∧
      a.accepted = a.pattern := by
  have halarms : alarms (mainThread.trace MainState.init firstAlarm) =
      [] ++ [⟨['a', 'b', 'c', 'd'], ['a', 'b', 'c', 'd'], true⟩] := by decide +kernel
  exact ⟨_, halarms, rfl, (disarmed_by_own_pattern_iff _ _ _ _ halarms rfl).mpr rfl⟩

/-- The alarm of the next day is left without a letter. -/
theorem second_alarm_left_unanswered :
    ¬ ∀ (is : List Inputs) (later earlier : List Alarm) (a : Alarm),
      alarms (mainThread.trace MainState.init is) = later ++ a :: earlier →
        a.left = true → a.accepted = a.pattern := by
  intro h
  have heq := h (firstAlarm ++ alarmSteps 86400 ++ [.showing 86400 none]) []
    [⟨['a', 'b', 'c', 'd'], ['a', 'b', 'c', 'd'], true⟩] ⟨['a', 'b', 'c', 'd'], [], true⟩
    (by decide +kernel) rfl
  cases heq

end Firmware
