-- SUMMARY: The lamps in the whole system: they blink one at a time, as the calls of the light game announce it.
import SmartAlarm.Properties.Composition
import SmartAlarm.Properties.LightShow

/-!
# The lamps

Every call of the light game lights one lamp after another and leaves all of them
dark. In the system only two of the calls are ever made, so the log of the lamps
is a list of blinks, and it can be told from the calls alone.
-/

namespace LedSequence

/-! ## The calls -/

/-- Four passes of the loop in `ledSelect` blink with the lamps of their letters. -/
theorem selectLoop_events {n : Nat} {g : Game} (rand : Nat → Nat) (h : g.ledCount + n ≤ 4) :
    (selectLoop rand n g).2 =
      ((List.range n).map fun k => chosenLed (letterOf (rand k))).flatMap blink := by
  induction n generalizing g rand with
  | zero => rfl
  | succ n ih =>
    have hcount : g.ledCount < 4 := by omega
    have hnext : (selectPass (rand 0) g).1.ledCount + n ≤ 4 := by
      rw [selectPass_ledCount]
      omega
    simp only [selectLoop, hcount, if_true]
    rw [selectPass_events, ih (fun k => rand (k + 1)) hnext, List.range_succ_eq_map, List.map_cons,
      List.map_map, List.flatMap_cons]
    rfl

theorem ledSelect_events {g : Game} (rand : Nat → Nat) (h : g.Ready) :
    (ledSelect rand g).events = ((ledSelect rand g).pattern.map chosenLed).flatMap blink := by
  have hcount : g.ledCount + 4 ≤ 4 := by rw [h.ledCount]
  rw [ledSelect_pattern rand h]
  simp only [ledSelect, h.ledCount, Nat.sub_zero]
  exact selectLoop_events rand hcount

theorem repeatLoop_events {pattern : List Char} (hmem : ∀ c ∈ pattern, c ∈ ['a', 'b', 'c', 'd'])
    {n : Nat} {g : Game} (hlen : g.ledCount + n ≤ pattern.length) (h : g.ledCount + n ≤ 4) :
    (repeatLoop pattern n g).2 =
      (((pattern.drop g.ledCount).take n).map repeatedLed).flatMap blink := by
  induction n generalizing g with
  | zero => rfl
  | succ n ih =>
    have hcount : g.ledCount < 4 := by omega
    have hin : g.ledCount < pattern.length := by omega
    have hchar : Libc.charAt pattern g.ledCount = pattern[g.ledCount] :=
      List.getD_eq_getElem _ _ hin
    have hletter : Libc.charAt pattern g.ledCount ∈ ['a', 'b', 'c', 'd'] := by
      rw [hchar]
      exact hmem _ (List.getElem_mem hin)
    have hnext := repeatPass_ledCount pattern g
    simp only [repeatLoop, hcount, if_true]
    rw [repeatPass_events hletter, ih (by omega) (by omega), hnext, List.drop_eq_getElem_cons hin,
      List.take_succ_cons, List.map_cons, hchar, List.flatMap_cons]

theorem ledRepeatSequence_events {g : Game} (p : Pattern) (h : g.Ready) :
    (ledRepeatSequence p.letters g).2 = (p.letters.map repeatedLed).flatMap blink := by
  have hlen := p.length_eq
  have hloop := repeatLoop_events (n := 4) (g := g) p.mem_abcd
    (by rw [h.ledCount, hlen]) (by rw [h.ledCount])
  rw [h.ledCount, List.drop_zero, List.take_of_length_le hlen.le] at hloop
  simp only [ledRepeatSequence, h.ledCount, Nat.sub_zero]
  exact hloop

/-! ## What is lit -/

/-- The lamps after an event. -/
def LedEvent.glow (lit : Led → Bool) : LedEvent → Led → Bool
  | .write led on => Function.update lit led on
  | .wait _ => lit

/-- The lamps after a log, from the dark. -/
def glow (log : List LedEvent) : Led → Bool := log.foldl LedEvent.glow fun _ => false

theorem glow_append (log log' : List LedEvent) :
    glow (log ++ log') = log'.foldl LedEvent.glow (glow log) := List.foldl_append

theorem glow_blink {log : List LedEvent} (h : glow log = fun _ => false) (led : Led) :
    glow (log ++ blink led) = fun _ => false := by
  rw [glow_append, h]
  simp [blink, LedEvent.glow]

/-- Blinks leave all lamps dark. -/
theorem glow_blinks (leds : List Led) : glow (leds.flatMap blink) = fun _ => false := by
  induction leds using List.reverseRecOn with
  | nil => rfl
  | append_singleton leds led ih =>
    rw [List.flatMap_append, List.flatMap_singleton]
    exact glow_blink ih led

/-- Within a blink only its own lamp can be lit. -/
theorem glow_prefix_blink {pre : List LedEvent} {led : Led} (h : pre <+: blink led) (l : Led)
    (hl : glow pre l = true) : l = led := by
  by_contra hne
  have hcases : pre = [] ∨ pre = [.write led true] ∨ pre = [.write led true, .wait (4 / 10)] ∨
      pre = blink led := by
    obtain ⟨post, hpost⟩ := h
    match pre, hpost with
    | [], _ => exact .inl rfl
    | [_], hpost => exact .inr (.inl (by simp [blink] at hpost; simp [hpost.1]))
    | [_, _], hpost => exact .inr (.inr (.inl (by simp [blink] at hpost; simp [hpost.1, hpost.2.1])))
    | [_, _, _], hpost =>
      exact .inr (.inr (.inr (by simp [blink] at hpost ⊢; simp [hpost])))
    | _ :: _ :: _ :: _ :: _, hpost => simp [blink] at hpost
  rcases hcases with rfl | rfl | rfl | rfl <;>
    simp [glow, blink, LedEvent.glow, Function.update_of_ne hne] at hl

/-- At every moment of a list of blinks at most one lamp is lit. -/
theorem glow_prefix_blinks {leds : List Led} {pre : List LedEvent} (h : pre <+: leds.flatMap blink)
    {l l' : Led} (hl : glow pre l = true) (hl' : glow pre l' = true) : l = l' := by
  induction leds using List.reverseRecOn with
  | nil =>
    rw [List.flatMap_nil, List.prefix_nil] at h
    subst h
    cases hl
  | append_singleton leds led ih =>
    rw [List.flatMap_append, List.flatMap_singleton] at h
    obtain ⟨post, hpost⟩ := h
    rcases List.append_eq_append_iff.mp hpost with ⟨mid, hmid, -⟩ | ⟨mid, rfl, hmid⟩
    · exact ih ⟨mid, hmid.symm⟩
    · have hinside : mid <+: blink led := ⟨post, hmid.symm⟩
      have hdark : glow (leds.flatMap blink ++ mid) = glow mid := by
        rw [glow_append, glow_blinks]
        rfl
      rw [hdark] at hl hl'
      exact (glow_prefix_blink hinside l hl).trans (glow_prefix_blink hinside l' hl').symm

end LedSequence

namespace Firmware

open LedSequence

/-! ## The log of the lamps -/

def Event.lamp? : Event → Option LedEvent
  | .lamp e => some e
  | _       => none

/-- What a run does to the lamps. -/
def lampLog (events : List Event) : List LedEvent := events.filterMap Event.lamp?

/-- The lamps that a call of the light game announces, in order. -/
def Event.announces : Event → List Led
  | .ledSelect pattern         => pattern.map chosenLed
  | .ledRepeatSequence pattern => pattern.map repeatedLed
  | _                          => []

/-- The log is the blinks that the calls announce. -/
def Announced (events : List Event) : Prop :=
  lampLog events = (events.flatMap Event.announces).flatMap blink

theorem announced_nil : Announced [] := rfl

theorem Announced.append {es fs : List Event} (h : Announced es) (h' : Announced fs) :
    Announced (es ++ fs) := by
  rw [Announced, lampLog, List.filterMap_append, List.flatMap_append, List.flatMap_append, ← h, ← h']
  rfl

/-- An event that has nothing to do with the lamps. -/
def Event.isDark : Event → Bool
  | .lamp _ | .ledSelect _ | .ledRepeatSequence _ => false
  | _ => true

theorem announced_of_isDark {events : List Event} (h : ∀ e ∈ events, e.isDark = true) :
    Announced events := by
  induction events with
  | nil => rfl
  | cons e events ih =>
    obtain ⟨he, hrest⟩ := List.forall_mem_cons.mp h
    have hfirst : Announced [e] := by
      cases e <;> first | rfl | cases he
    exact hfirst.append (ih hrest)

/-- A call of the light game with what it does. -/
theorem announced_call {e : Event} {log : List LedEvent} (hdark : e.lamp? = none)
    (hlog : log = (e.announces).flatMap blink) : Announced (e :: log.map .lamp) := by
  have hlamps : lampLog (log.map .lamp) = log := by
    rw [lampLog, List.filterMap_map]
    exact List.filterMap_some
  have hsilent : (log.map Event.lamp).flatMap Event.announces = [] :=
    List.flatMap_eq_nil_iff.mpr fun e he => by
      obtain ⟨l, -, rfl⟩ := List.mem_map.mp he
      rfl
  rw [Announced, List.flatMap_cons, hsilent, List.append_nil, ← hlog, lampLog,
    List.filterMap_cons_none hdark]
  exact hlamps

/-! ## Every interleaving -/

/-- The song and the lights are repeated. -/
theorem announced_refresh (i : Samples) {g : Globals} (h : g.game.Ready) {p : Pattern}
    (hp : g.ledColorSeq = p.letters) : Announced (refresh i g).2 := by
  have hsong : Announced (if 7.65 ≤ i.tSpeaker then restart .tSpeaker ++ [.speakerInit] else []) := by
    split <;> exact announced_of_isDark (by simp [restart, Event.isDark])
  by_cases hled : 3 ≤ i.tLED
  · simp only [refresh, hled, if_true]
    refine (hsong.append (announced_of_isDark ?_)).append (announced_call rfl ?_)
    · simp [restart, Event.isDark]
    · rw [hp]
      exact ledRepeatSequence_events p h
  · simp only [refresh, hled, if_false]
    exact hsong

/-- A pass of the disarm loop. -/
theorem announced_disarm {m : MainState} (h : Counting m) (hpc : m.pc = .disarm) (i : Inputs) :
    Announced (mainThread.out m i) := by
  obtain ⟨p, hp⟩ := h.pattern (.inr hpc)
  by_cases hloop : m.globals.inputCount < 4
  · have hoff : shutOff m.globals = (m.globals, []) := by
      apply shutOff_of_ne
      rw [hp, h.matched, p.length_eq]
      omega
    rw [out_disarm hpc hloop]
    simp only [Machine.out, disarmLoop, hloop, if_true, disarmPass, hoff, List.nil_append]
    cases hletter : i.toSamples.letter with
    | none =>
      rw [ladder_of_none hletter]
      exact announced_refresh _ h.ready hp
    | some c =>
      rw [ladder_of_letter hletter, enter]
      split <;> exact announced_of_isDark (by simp [Event.isDark])
  · rw [Machine.out, mainThread_leave hpc hloop]
    exact announced_of_isDark (by simp [Event.isDark])

theorem announced_mainThread {m : MainState} (h : Counting m) (i : Inputs) :
    Announced (mainThread.out m i) := by
  cases hpc : m.pc with
  | disarm => exact announced_disarm h hpc i
  | select =>
    simp only [Machine.out, mainThread, mainStep, hpc, selectStep]
    exact announced_call rfl (ledSelect_events i.rand h.ready)
  | setTime =>
    simp only [Machine.out, mainThread, mainStep, hpc]
    split
    · exact announced_nil
    · cases (TimeDisplay.setTimePoll m.seconds i.hour i.minute).2 <;>
        exact announced_of_isDark (by simp [Event.isDark])
  | compare =>
    simp only [Machine.out, mainThread, mainStep, hpc]
    split <;> exact announced_of_isDark (by simp [Event.isDark])
  | launch =>
    simp only [Machine.out, mainThread, mainStep, hpc]
    split <;> exact announced_of_isDark (by simp [Event.isDark])
  | startSpeaker | startLED | top | stopA | stopB | ring | rearm =>
    simp only [Machine.out, mainThread, mainStep, hpc]
    exact announced_of_isDark (by simp [Event.isDark, restart])

theorem announced_run (as : List Action) : Announced (system.trace System.init as) := by
  refine (system.history (J := fun _ tr s => Counting s.main ∧ Announced tr)
    ⟨counting_init, announced_nil⟩ ?_ as).2
  intro _ tr s a ⟨hcounting, htr⟩
  cases a with
  | elapse d =>
    refine ⟨hcounting, ?_⟩
    simpa [Machine.out, system, systemStep] using htr
  | main i =>
    refine ⟨?_, htr.append (announced_mainThread hcounting (s.inputs i))⟩
    simpa [Machine.next, system, systemStep, mainThread] using (hcounting.step (s.inputs i)).1
  | robot distance =>
    cases hpc : s.robot with
    | none =>
      rw [Machine.next, Machine.out, step_robot_of_none hpc, List.append_nil]
      exact ⟨hcounting, htr⟩
    | some pc =>
      refine ⟨(next_robot hpc distance).1 ▸ hcounting, htr.append ?_⟩
      rw [out_robot hpc]
      cases pc <;> exact announced_of_isDark (by simp [robotStep, Event.isDark])

/-- In every interleaving the lamps blink, each for 0.4 seconds, exactly as the calls
    of `ledSelect` and `ledRepeatSequence` announce it: never two at a time, and
    none stays lit between two steps. -/
theorem lamps_blink_as_announced (as : List Action) :
    let tr := system.trace System.init as
    lampLog tr = (tr.flatMap Event.announces).flatMap blink ∧
      (∀ pre, pre <+: lampLog tr → ∀ l l', glow pre l = true → glow pre l' = true → l = l') ∧
      glow (lampLog tr) = fun _ => false := by
  intro tr
  have hlog : lampLog tr = (tr.flatMap Event.announces).flatMap blink := announced_run as
  refine ⟨hlog, fun pre hpre l l' hl hl' => ?_, ?_⟩
  · rw [hlog] at hpre
    exact glow_prefix_blinks hpre hl hl'
  · rw [hlog]
    exact glow_blinks _

end Firmware
