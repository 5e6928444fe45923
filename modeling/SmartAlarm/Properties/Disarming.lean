-- SUMMARY: The disarm loop refines a greedy matcher; what it silences, what holding a button does, and what a press is worth.
import SmartAlarm.Firmware.Disarm
import SmartAlarm.Properties.LightGame
import SmartAlarm.Lib.Matcher
import Mathlib.Tactic.NormNum

/-!
# The disarm loop

What the loop is for: a reader that looks for the four letters of the pattern in
what the buttons show. `inputCount` is the progress of that reader, whatever the
timers and the second counter `matched` do.
-/

namespace Firmware

open Libc LedSequence

/-! ## What a pass contributes -/

/-- The letter of the first button that a pass reads as down. -/
def Samples.letter (i : Samples) : Option Char :=
  if i.ledButton1 then some 'a'
  else if i.ledButton2 then some 'b'
  else if i.ledButton3 then some 'c'
  else if i.ledButton4 then some 'd'
  else none

/-- The loop as it is entered for pattern `p`, with `matched` at `m`. -/
def Globals.armed (g : Globals) (p : Pattern) (m : Nat) : Globals :=
  { g with ledColorSeq := p.letters, inputCount := 0, matched := m }

theorem letter_ne_zero {i : Samples} {c : Char} (h : i.letter = some c) : c ≠ '\x00' := by
  unfold Samples.letter at h
  split_ifs at h <;> cases h <;> decide

theorem letter_eq_none_iff {i : Samples} :
    i.letter = none ↔ i.ledButton1 = false ∧ i.ledButton2 = false ∧
      i.ledButton3 = false ∧ i.ledButton4 = false := by
  unfold Samples.letter
  cases i.ledButton1 <;> cases i.ledButton2 <;> cases i.ledButton3 <;> cases i.ledButton4 <;> simp

theorem ladder_of_letter {i : Samples} {c : Char} (h : i.letter = some c) (g : Globals) :
    ladder i g = enter c g := by
  unfold Samples.letter at h
  unfold ladder
  split_ifs at h ⊢ <;> cases h <;> rfl

theorem ladder_of_none {i : Samples} (h : i.letter = none) (g : Globals) :
    ladder i g = refresh i g := by
  obtain ⟨h₁, h₂, h₃, h₄⟩ := letter_eq_none_iff.mp h
  simp [ladder, h₁, h₂, h₃, h₄]

/-- Reading a C++ string at an index gives a proper character only inside it. -/
theorem charAt_eq_iff {s : List Char} {n : Nat} {c : Char} (hc : c ≠ '\x00') :
    charAt s n = c ↔ s[n]? = some c := by
  unfold charAt
  rw [List.getD_eq_getElem?_getD]
  cases s[n]? with
  | none => simp [hc.symm]
  | some d => simp

/-! ## The parts of a pass -/

@[simp] theorem shutOff_inputCount (g : Globals) : (shutOff g).1.inputCount = g.inputCount := by
  unfold shutOff
  split <;> rfl

@[simp] theorem shutOff_ledColorSeq (g : Globals) : (shutOff g).1.ledColorSeq = g.ledColorSeq := by
  unfold shutOff
  split <;> rfl

theorem shutOff_of_ne {g : Globals} (h : g.matched ≠ g.ledColorSeq.length) :
    shutOff g = (g, []) := by
  simp [shutOff, h]

theorem refresh_globals (i : Samples) (g : Globals) :
    ∃ game, (refresh i g).1 = { g with game := game } := by
  by_cases hled : 3 ≤ i.tLED
  · exact ⟨(ledRepeatSequence g.ledColorSeq g.game).1, by simp [refresh, hled]⟩
  · exact ⟨g.game, by simp [refresh, hled]⟩

theorem enter_of_eq {g : Globals} {c : Char} (h : charAt g.ledColorSeq g.inputCount = c) :
    enter c g =
      ({ g with inputSeq := c, inputCount := g.inputCount + 1, matched := g.matched + 1 },
        [.accept c]) := by
  simp [enter, h]

theorem enter_of_ne {g : Globals} {c : Char} (h : charAt g.ledColorSeq g.inputCount ≠ c) :
    enter c g = ({ g with inputSeq := c }, []) := by
  simp [enter, Ne.symm h]

/-- The events that the branch without a button can cause. -/
theorem mem_refresh {i : Samples} {g : Globals} {e : Event} (he : e ∈ (refresh i g).2) :
    (∃ t op, t ≠ .tMotor ∧ e = .timer t op) ∨ e = .speakerInit ∨ (∃ q, e = .ledRepeatSequence q) ∨
      ∃ l, e = .lamp l := by
  have hsong : ∀ e ∈ (if 7.65 ≤ i.tSpeaker then restart .tSpeaker ++ [.speakerInit] else []),
      (∃ t op, t ≠ .tMotor ∧ e = Event.timer t op) ∨ e = .speakerInit := by
    intro e he
    split at he
    · simp only [restart, List.mem_append, List.mem_cons, List.not_mem_nil, or_false] at he
      rcases he with (rfl | rfl | rfl) | rfl
      · exact .inl ⟨.tSpeaker, .stop, by decide, rfl⟩
      · exact .inl ⟨.tSpeaker, .reset, by decide, rfl⟩
      · exact .inl ⟨.tSpeaker, .start, by decide, rfl⟩
      · exact .inr rfl
    · cases he
  by_cases hled : 3 ≤ i.tLED
  · simp only [refresh, hled, if_true, restart, List.mem_append, List.mem_cons, List.not_mem_nil,
      or_false, List.mem_map] at he
    rcases he with (he | (rfl | rfl | rfl)) | rfl | ⟨l, -, rfl⟩
    · rcases hsong e he with h | h
      · exact .inl h
      · exact .inr (.inl h)
    · exact .inl ⟨.tLED, .stop, by decide, rfl⟩
    · exact .inl ⟨.tLED, .reset, by decide, rfl⟩
    · exact .inl ⟨.tLED, .start, by decide, rfl⟩
    · exact .inr (.inr (.inl ⟨_, rfl⟩))
    · exact .inr (.inr (.inr ⟨l, rfl⟩))
  · simp only [refresh, hled, if_false] at he
    rcases hsong e he with h | h
    · exact .inl h
    · exact .inr (.inl h)

/-- A call on speaker, lights or their timers. -/
def Event.isSignal : Event → Bool
  | .timer t _           => t ≠ .tMotor
  | .speakerInit         => true
  | .turnOffSpeaker      => true
  | .turnOffColor        => true
  | .ledRepeatSequence _ => true
  | .lamp _              => true
  | _                    => false

theorem isSignal_refresh {i : Samples} {g : Globals} :
    ∀ e ∈ (refresh i g).2, e.isSignal = true := by
  intro e he
  rcases mem_refresh he with ⟨t, op, ht, rfl⟩ | rfl | ⟨q, rfl⟩ | ⟨l, rfl⟩
  · exact decide_eq_true ht
  · rfl
  · rfl
  · rfl

theorem isSignal_shutOff {g : Globals} : ∀ e ∈ (shutOff g).2, e.isSignal = true := by
  intro e he
  unfold shutOff at he
  split at he
  · simp only [List.mem_cons, List.mem_map] at he
    rcases he with rfl | rfl | ⟨l, -, rfl⟩ <;> rfl
  · cases he

/-! ## The loop as a matcher -/

/-- What the ladder does, once for all: it accepts the letter that is next in
    the pattern, or it changes neither counter. -/
theorem ladder_cases (i : Samples) (g : Globals) :
    (∃ c, i.letter = some c ∧ g.ledColorSeq[g.inputCount]? = some c ∧
      ladder i g =
        ({ g with inputSeq := c, inputCount := g.inputCount + 1, matched := g.matched + 1 },
          [.accept c])) ∨
    (∃ c, i.letter = some c ∧ g.ledColorSeq[g.inputCount]? ≠ some c ∧
      ladder i g = ({ g with inputSeq := c }, [])) ∨
    (i.letter = none ∧ ladder i g = refresh i g) := by
  cases hletter : i.letter with
  | none => exact .inr (.inr ⟨rfl, ladder_of_none hletter g⟩)
  | some c =>
    rw [ladder_of_letter hletter]
    by_cases hwant : g.ledColorSeq[g.inputCount]? = some c
    · exact .inl ⟨c, rfl, hwant, enter_of_eq ((charAt_eq_iff (letter_ne_zero hletter)).mpr hwant)⟩
    · refine .inr (.inl ⟨c, rfl, hwant, enter_of_ne fun h => hwant ?_⟩)
      exact (charAt_eq_iff (letter_ne_zero hletter)).mp h

theorem ladder_inputCount (i : Samples) (g : Globals) :
    (ladder i g).1.inputCount = Matcher.advance g.ledColorSeq g.inputCount i.letter := by
  rcases ladder_cases i g with ⟨c, hletter, hwant, heq⟩ | ⟨c, hletter, hwant, heq⟩ | ⟨hletter, heq⟩
  · simp [heq, hletter, Matcher.advance, hwant]
  · simp [heq, hletter, Matcher.advance, hwant]
  · obtain ⟨game, hgame⟩ := refresh_globals i g
    simp [heq, hletter, Matcher.advance, hgame]

theorem ladder_ledColorSeq (i : Samples) (g : Globals) :
    (ladder i g).1.ledColorSeq = g.ledColorSeq := by
  rcases ladder_cases i g with ⟨c, -, -, heq⟩ | ⟨c, -, -, heq⟩ | ⟨-, heq⟩
  · rw [heq]
  · rw [heq]
  · obtain ⟨game, hgame⟩ := refresh_globals i g
    rw [heq, hgame]

/-- What a pass does: after some signals it may accept the letter that is next. -/
theorem disarmPass_cases (i : Samples) (g : Globals) :
    (∃ c events, g.ledColorSeq[g.inputCount]? = some c ∧
      (disarmPass i g).1.inputCount = g.inputCount + 1 ∧
      (disarmPass i g).2 = events ++ [.accept c] ∧ ∀ e ∈ events, e.isSignal = true) ∨
    ((disarmPass i g).1.inputCount = g.inputCount ∧
      ∀ e ∈ (disarmPass i g).2, e.isSignal = true) := by
  simp only [disarmPass]
  rcases ladder_cases i (shutOff g).1 with ⟨c, -, hwant, heq⟩ | ⟨c, -, -, heq⟩ | ⟨-, heq⟩
  · rw [shutOff_ledColorSeq, shutOff_inputCount] at hwant
    refine .inl ⟨c, (shutOff g).2, hwant, ?_, ?_, isSignal_shutOff⟩
    · simp [heq]
    · rw [heq]
  · refine .inr ⟨by simp [heq], ?_⟩
    rw [heq, List.append_nil]
    exact isSignal_shutOff
  · obtain ⟨game, hgame⟩ := refresh_globals i (shutOff g).1
    refine .inr ⟨by simp [heq, hgame], fun e he => ?_⟩
    rw [heq] at he
    rcases List.mem_append.mp he with he | he
    · exact isSignal_shutOff e he
    · exact isSignal_refresh e he

theorem disarmPass_ledColorSeq (i : Samples) (g : Globals) :
    (disarmPass i g).1.ledColorSeq = g.ledColorSeq := by
  simp only [disarmPass, ladder_ledColorSeq, shutOff_ledColorSeq]

/-- The game stays ready for the next call of `ledSelect`. -/
theorem ready_disarmPass {i : Samples} {g : Globals} (h : g.game.Ready) :
    (disarmPass i g).1.game.Ready := by
  have hoff : (shutOff g).1.game.Ready := by
    unfold shutOff
    split
    · exact ready_turnOffColor h
    · exact h
  simp only [disarmPass]
  rcases ladder_cases i (shutOff g).1 with ⟨c, -, -, heq⟩ | ⟨c, -, -, heq⟩ | ⟨-, heq⟩
  · rw [heq]
    exact hoff
  · rw [heq]
    exact hoff
  · rw [heq]
    by_cases hled : 3 ≤ i.tLED
    · simpa [refresh, hled] using ready_ledRepeatSequence _ hoff
    · simpa [refresh, hled] using hoff

theorem disarmLoop_ledColorSeq (g : Globals) (i : Samples) :
    (disarmLoop.next g i).ledColorSeq = g.ledColorSeq := by
  simp only [Machine.next, disarmLoop]
  split
  · exact disarmPass_ledColorSeq i g
  · rfl

/-- A pass, or the loop's end, is one step of the matcher. -/
theorem disarmLoop_inputCount {g : Globals} {p : Pattern} (hp : g.ledColorSeq = p.letters)
    (i : Samples) :
    (disarmLoop.next g i).inputCount = Matcher.advance p.letters g.inputCount i.letter := by
  simp only [Machine.next, disarmLoop]
  split
  · simp only [disarmPass, ladder_inputCount, shutOff_inputCount, shutOff_ledColorSeq, hp]
  · have hlen := p.length_eq
    rw [Matcher.advance_of_length_le (by omega)]

/-- After any samples `inputCount` is the progress of the matcher. -/
theorem run_inputCount {g : Globals} {p : Pattern} (hp : g.ledColorSeq = p.letters)
    (is : List Samples) :
    (disarmLoop.run g is).inputCount =
      Matcher.progress p.letters g.inputCount (is.map Samples.letter) := by
  induction is generalizing g with
  | nil => rfl
  | cons i is ih =>
    rw [Machine.run_cons, ih ((disarmLoop_ledColorSeq g i).trans hp), disarmLoop_inputCount hp,
      List.map_cons, Matcher.progress_cons]

theorem run_armed_inputCount (g : Globals) (p : Pattern) (m : Nat) (is : List Samples) :
    (disarmLoop.run (g.armed p m) is).inputCount =
      Matcher.progress p.letters 0 (is.map Samples.letter) := run_inputCount rfl is

/-! ## What the loop accepts -/

/-- The letters that the iterations contribute. -/
def contributed (is : List Samples) : List Char := is.filterMap Samples.letter

theorem reduceOption_letter (is : List Samples) :
    (is.map Samples.letter).reduceOption = contributed is := by
  rw [List.reduceOption, List.filterMap_map]
  rfl

/-- The loop condition fails once the letters contain the pattern. -/
theorem loop_exits_iff (p : Pattern) (g : Globals) (m : Nat) (is : List Samples) :
    ¬ (disarmLoop.run (g.armed p m) is).inputCount < 4 ↔ p.letters.Sublist (contributed is) := by
  rw [run_armed_inputCount, ← reduceOption_letter, Matcher.sublist_iff, p.length_eq, Nat.not_lt]

/-- In every run of the loop `inputCount` is the length of the longest prefix of
    the pattern that is a subsequence of the letters contributed, and the loop
    is left with the iteration that completes the pattern. -/
theorem accepts_longest_prefix (p : Pattern) (g : Globals) (m : Nat) (is : List Samples) :
    IsGreatest {n | ∃ q, q <+: p.letters ∧ q.length = n ∧ q.Sublist (contributed is)}
        (disarmLoop.run (g.armed p m) is).inputCount ∧
      ∀ i, ((disarmLoop.run (g.armed p m) is).inputCount < 4 ∧
          ¬ (disarmLoop.run (g.armed p m) (is ++ [i])).inputCount < 4) ↔
        (¬ p.letters.Sublist (contributed is) ∧ p.letters.Sublist (contributed (is ++ [i]))) := by
  constructor
  · rw [run_armed_inputCount, ← reduceOption_letter]
    exact Matcher.isGreatest_progress p.letters _
  · intro i
    rw [← loop_exits_iff p g m, ← loop_exits_iff p g m, not_not]

/-! ## Presses and letters -/

/-- A pass that finds one button down, or none, and no timer due. -/
def Samples.showing (x : Option Char) : Samples where
  ledButton1 := x = some 'a'
  ledButton2 := x = some 'b'
  ledButton3 := x = some 'c'
  ledButton4 := x = some 'd'
  tSpeaker := 0
  tLED := 0

theorem letter_showing {x : Option Char} (h : ∀ c, x = some c → c ∈ ['a', 'b', 'c', 'd']) :
    (Samples.showing x).letter = x := by
  cases x with
  | none => rfl
  | some c =>
    have hc := h c rfl
    simp only [List.mem_cons, List.not_mem_nil, or_false] at hc
    rcases hc with rfl | rfl | rfl | rfl <;> rfl

theorem map_letter_showing {p : Pattern} {xs : List (Option Char)}
    (h : ∀ c, some c ∈ xs → c ∈ p.letters) : (xs.map Samples.showing).map Samples.letter = xs := by
  have hid : xs.map (Samples.letter ∘ Samples.showing) = xs.map id := by
    refine List.map_congr_left fun x hx => letter_showing fun c hc => ?_
    exact p.mem_abcd c (h c (hc ▸ hx))
  rw [List.map_map, hid, List.map_id]

/-- Speaker and lights have been switched off after the last accepted letter
    and after the last start of the song. -/
def Silenced (tr : List Event) : Prop :=
  ∃ pre post, tr = pre ++ post ∧ .turnOffSpeaker ∈ post ∧ .turnOffColor ∈ post ∧
    .speakerInit ∉ post ∧ ∀ c, .accept c ∉ post

/-- Entered with both counters at 0, the loop keeps them equal, so inside it
    `matched` never reaches the length of the pattern. -/
structure CountersAgree (p : Pattern) (g : Globals) : Prop where
  pattern : g.ledColorSeq = p.letters
  matched : g.matched = g.inputCount

theorem countersAgree_armed (g : Globals) (p : Pattern) : CountersAgree p (g.armed p 0) := ⟨rfl, rfl⟩

theorem CountersAgree.step {p : Pattern} {g : Globals} (h : CountersAgree p g) (i : Samples) :
    CountersAgree p (disarmLoop.next g i) ∧
      ∀ e ∈ disarmLoop.out g i, e ≠ .turnOffSpeaker ∧ e ≠ .turnOffColor := by
  by_cases hloop : g.inputCount < 4
  · have hoff : shutOff g = (g, []) := by
      apply shutOff_of_ne
      rw [h.pattern, h.matched, p.length_eq]
      omega
    simp only [Machine.next, Machine.out, disarmLoop, hloop, if_true, disarmPass, hoff,
      List.nil_append]
    rcases ladder_cases i g with ⟨c, -, -, heq⟩ | ⟨c, -, -, heq⟩ | ⟨-, heq⟩
    · rw [heq]
      exact ⟨⟨h.pattern, congrArg (· + 1) h.matched⟩, by simp⟩
    · rw [heq]
      exact ⟨⟨h.pattern, h.matched⟩, by simp⟩
    · obtain ⟨game, hgame⟩ := refresh_globals i g
      rw [heq, hgame]
      refine ⟨⟨h.pattern, h.matched⟩, fun e he => ?_⟩
      rcases mem_refresh he with ⟨t, op, -, rfl⟩ | rfl | ⟨q, rfl⟩ | ⟨l, rfl⟩ <;> simp
  · simp only [Machine.next, Machine.out, disarmLoop, hloop, if_false]
    exact ⟨h, by simp⟩

/-- The loop never switches speaker or lights off. -/
theorem turnOff_not_mem_trace (p : Pattern) (g : Globals) (is : List Samples) :
    ∀ e ∈ disarmLoop.trace (g.armed p 0) is, e ≠ .turnOffSpeaker ∧ e ≠ .turnOffColor :=
  disarmLoop.forall_mem_trace (countersAgree_armed g p) (fun _ i h => h.step i) is

/-- Pressing and releasing the letters of the pattern in turn. -/
def tapSamples (p : Pattern) : List Samples := (Matcher.tapped p.letters).map .showing

/-- Every pattern can be entered. -/
theorem run_tapSamples (g : Globals) (p : Pattern) (m : Nat) :
    (disarmLoop.run (g.armed p m) (tapSamples p)).inputCount = 4 := by
  have htake : p.letters.take 4 = p.letters := List.take_of_length_le (by rw [p.length_eq])
  have htap := Matcher.progress_tapped (p := p.letters) 4 (by rw [p.length_eq])
  rw [htake] at htap
  rw [run_armed_inputCount, tapSamples,
    map_letter_showing fun c hc => Matcher.mem_of_some_mem_tapped hc, htap]

/-- Every pattern can be entered, and no run that enters it silences the alarm. -/
theorem disarming_never_silences (p : Pattern) (g : Globals) :
    (∃ is, (disarmLoop.run (g.armed p 0) is).inputCount = 4) ∧
      ∀ is, ¬ Silenced (disarmLoop.trace (g.armed p 0) is) := by
  refine ⟨⟨tapSamples p, run_tapSamples g p 0⟩, ?_⟩
  rintro is ⟨pre, post, htr, hoff, -, -, -⟩
  have hmem : .turnOffSpeaker ∈ disarmLoop.trace (g.armed p 0) is := by
    rw [htr]
    exact List.mem_append_right pre hoff
  exact (turnOff_not_mem_trace p g is _ hmem).1 rfl

/-- The pattern `abcd` entered letter by letter ends the loop with the song still on. -/
theorem entered_pattern_keeps_ringing :
    ¬ ∀ (p : Pattern) (g : Globals) (is : List Samples),
      (disarmLoop.run (g.armed p 0) is).inputCount = 4 →
        Silenced (disarmLoop.trace (g.armed p 0) is) := by
  intro h
  let p : Pattern := ⟨['a', 'b', 'c', 'd'], rfl, by simp⟩
  obtain ⟨pre, post, htr, hoff, -⟩ := h p Globals.init (tapSamples p) (run_tapSamples _ p 0)
  have hmem : .turnOffSpeaker ∈ disarmLoop.trace (Globals.init.armed p 0) (tapSamples p) := by
    rw [htr]
    exact List.mem_append_right pre hoff
  exact (turnOff_not_mem_trace p _ _ _ hmem).1 rfl

/-! ## Repeating the song -/

/-- The song starts again and its timer with it. -/
def RestartsSong (events : List Event) : Prop :=
  .timer .tSpeaker .reset ∈ events ∧ .speakerInit ∈ events

theorem speakerInit_not_mem_shutOff (g : Globals) : .speakerInit ∉ (shutOff g).2 := by
  unfold shutOff
  split <;> simp

/-- A due song restarts in the branch without a button, and in no other. -/
theorem speakerInit_mem_ladder_iff {i : Samples} (hdue : 7.65 ≤ i.tSpeaker) (g : Globals) :
    .speakerInit ∈ (ladder i g).2 ↔ i.letter = none := by
  rcases ladder_cases i g with ⟨c, hletter, -, heq⟩ | ⟨c, hletter, -, heq⟩ | ⟨hletter, heq⟩
  · simp [heq, hletter]
  · simp [heq, hletter]
  · by_cases hled : 3 ≤ i.tLED <;> simp [heq, hletter, refresh, hdue, hled]

theorem reset_mem_refresh {i : Samples} (hdue : 7.65 ≤ i.tSpeaker) (g : Globals) :
    .timer .tSpeaker .reset ∈ (refresh i g).2 := by
  by_cases hled : 3 ≤ i.tLED <;> simp [refresh, restart, hdue, hled]

theorem disarmLoop_out {g : Globals} (h : g.inputCount < 4) (i : Samples) :
    disarmLoop.out g i = (shutOff g).2 ++ (ladder i (shutOff g).1).2 := by
  simp only [Machine.out, disarmLoop, h, if_true, disarmPass]

/-- In every run of the loop, a pass at which the song is due restarts it
    exactly when the pass finds all buttons up. -/
theorem song_restarts_iff (p : Pattern) (g : Globals) (m : Nat) (is : List Samples) (i : Samples)
    (hloop : (disarmLoop.run (g.armed p m) is).inputCount < 4) (hdue : 7.65 ≤ i.tSpeaker) :
    RestartsSong (disarmLoop.out (disarmLoop.run (g.armed p m) is) i) ↔
      i.ledButton1 = false ∧ i.ledButton2 = false ∧ i.ledButton3 = false ∧
        i.ledButton4 = false := by
  rw [disarmLoop_out hloop, RestartsSong, List.mem_append, List.mem_append, ← letter_eq_none_iff,
    ← speakerInit_mem_ladder_iff hdue (shutOff (disarmLoop.run (g.armed p m) is)).1]
  constructor
  · rintro ⟨-, hoff | hladder⟩
    · exact absurd hoff (speakerInit_not_mem_shutOff _)
    · exact hladder
  · intro hladder
    refine ⟨.inr ?_, .inr hladder⟩
    rw [ladder_of_none ((speakerInit_mem_ladder_iff hdue _).mp hladder)]
    exact reset_mem_refresh hdue _

/-- An idle user eight seconds into the song hears it start again. -/
theorem song_restarts_idle :
    (Globals.init.armed ⟨['a', 'b', 'c', 'd'], rfl, by simp⟩ 0).inputCount < 4 ∧
      RestartsSong (disarmLoop.out (Globals.init.armed ⟨['a', 'b', 'c', 'd'], rfl, by simp⟩ 0)
        { Samples.showing none with tSpeaker := 8 }) :=
  ⟨by decide, (song_restarts_iff ⟨['a', 'b', 'c', 'd'], rfl, by simp⟩ Globals.init 0 []
    { Samples.showing none with tSpeaker := 8 } (by decide) (by norm_num)).mpr (by decide)⟩

/-- With the wrong button held, the song is not restarted when it is due. -/
theorem held_button_stops_restart :
    ¬ ∀ (p : Pattern) (g : Globals) (m : Nat) (is : List Samples) (i : Samples),
      (disarmLoop.run (g.armed p m) is).inputCount < 4 → 7.65 ≤ i.tSpeaker →
      (disarmLoop.run (g.armed p m) (is ++ [i])).inputCount < 4 →
        RestartsSong (disarmLoop.out (disarmLoop.run (g.armed p m) is) i) := by
  intro h
  let p : Pattern := ⟨['a', 'b', 'c', 'd'], rfl, by simp⟩
  let i : Samples := { Samples.showing (some 'b') with tSpeaker := 8 }
  have hdue : 7.65 ≤ i.tSpeaker := by norm_num [i]
  have hrestart := h p Globals.init 0 [] i (by decide) hdue (by decide)
  rw [disarmLoop_out (by decide)] at hrestart
  rcases List.mem_append.mp hrestart.2 with hoff | hladder
  · exact speakerInit_not_mem_shutOff _ hoff
  · have hnone := (speakerInit_mem_ladder_iff hdue _).mp hladder
    cases hnone

end Firmware
