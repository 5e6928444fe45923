-- SUMMARY: The lights of a pattern when it is chosen and when it is repeated: they differ for every `d`.
import SmartAlarm.Properties.LightGame
import Mathlib.Data.List.GetD

/-!
# The lights of a pattern

`ledSelect` and `ledRepeatSequence` each have a ladder of their own from letters
to lamps. The ladders agree but for `d`, for which `ledSelect` lights the lamp
of `c` again.
-/

namespace LedSequence

open Libc

/-- The lamps that light up, in order. -/
def lights (events : List LedEvent) : List Led :=
  events.filterMap fun
    | .write led true => some led
    | _               => none

/-- The lamp that `ledSelect` lights when it stores a letter. -/
def chosenLed (c : Char) : Led :=
  if c = 'a' then .myled1 else if c = 'b' then .myled2 else .myled3

/-- The lamp that `ledRepeatSequence` lights for a letter of a pattern. -/
def repeatedLed (c : Char) : Led :=
  if c = 'a' then .myled1 else if c = 'b' then .myled2 else if c = 'c' then .myled3 else .myled4

/-- A letter as `ledSelect` shows it. -/
def asShown (c : Char) : Char := if c = 'd' then 'c' else c

theorem lights_append (events events' : List LedEvent) :
    lights (events ++ events') = lights events ++ lights events' := List.filterMap_append

theorem lights_blink (led : Led) : lights (blink led) = [led] := rfl

/-! ## Choosing -/

theorem selectPass_events (r : Nat) (g : Game) :
    (selectPass r g).2 = blink (chosenLed (letterOf r)) := by
  have hr : r % 4 = 0 ∨ r % 4 = 1 ∨ r % 4 = 2 ∨ r % 4 = 3 := by omega
  rcases hr with h | h | h | h <;> simp [selectPass, letterOf, chosenLed, Game.choose, h]

/-- A pass lights the lamp of the letter that it stores. -/
theorem lights_selectLoop {n : Nat} {g : Game} (rand : Nat → Nat) (h : g.ledCount + n ≤ 4) :
    lights (selectLoop rand n g).2 = (List.range n).map fun k => chosenLed (letterOf (rand k)) := by
  induction n generalizing g rand with
  | zero => rfl
  | succ n ih =>
    have hcount : g.ledCount < 4 := by omega
    have hnext : (selectPass (rand 0) g).1.ledCount + n ≤ 4 := by
      rw [selectPass_ledCount]
      omega
    simp only [selectLoop, hcount, if_true]
    rw [lights_append, selectPass_events, lights_blink, ih (fun k => rand (k + 1)) hnext,
      List.range_succ_eq_map, List.map_cons, List.map_map]
    rfl

theorem lights_ledSelect {g : Game} (rand : Nat → Nat) (h : g.Ready) :
    lights (ledSelect rand g).events = (selectedPattern rand).letters.map chosenLed := by
  have hcount : g.ledCount + 4 ≤ 4 := by rw [h.ledCount]
  simp only [ledSelect, h.ledCount, Nat.sub_zero]
  exact lights_selectLoop rand hcount

/-! ## Repeating -/

theorem repeatPass_events {pattern : List Char} {g : Game}
    (h : charAt pattern g.ledCount ∈ ['a', 'b', 'c', 'd']) :
    (repeatPass pattern g).2 = blink (repeatedLed (charAt pattern g.ledCount)) := by
  simp only [List.mem_cons, List.not_mem_nil, or_false] at h
  rcases h with h | h | h | h <;> simp [repeatPass, repeatedLed, h]

theorem repeatPass_ledCount (pattern : List Char) (g : Game) :
    (repeatPass pattern g).1.ledCount = g.ledCount + 1 := by
  unfold repeatPass
  split_ifs <;> rfl

/-- A pass lights the lamp of the letter that it has come to. -/
theorem lights_repeatLoop {pattern : List Char} (hmem : ∀ c ∈ pattern, c ∈ ['a', 'b', 'c', 'd'])
    {n : Nat} {g : Game} (hlen : g.ledCount + n ≤ pattern.length) (h : g.ledCount + n ≤ 4) :
    lights (repeatLoop pattern n g).2 = ((pattern.drop g.ledCount).take n).map repeatedLed := by
  induction n generalizing g with
  | zero => rfl
  | succ n ih =>
    have hcount : g.ledCount < 4 := by omega
    have hin : g.ledCount < pattern.length := by omega
    have hchar : charAt pattern g.ledCount = pattern[g.ledCount] := List.getD_eq_getElem _ _ hin
    have hletter : charAt pattern g.ledCount ∈ ['a', 'b', 'c', 'd'] := by
      rw [hchar]
      exact hmem _ (List.getElem_mem hin)
    have hnext := repeatPass_ledCount pattern g
    simp only [repeatLoop, hcount, if_true]
    rw [lights_append, repeatPass_events hletter, lights_blink, ih (by omega) (by omega), hnext,
      List.drop_eq_getElem_cons hin, List.take_succ_cons, List.map_cons, hchar]
    rfl

theorem lights_ledRepeatSequence {g : Game} (p : Pattern) (h : g.Ready) :
    lights (ledRepeatSequence p.letters g).2 = p.letters.map repeatedLed := by
  have hlen := p.length_eq
  have hloop := lights_repeatLoop (n := 4) (g := g) p.mem_abcd
    (by rw [h.ledCount, hlen]) (by rw [h.ledCount])
  rw [h.ledCount, List.drop_zero, List.take_of_length_le hlen.le] at hloop
  simp only [ledRepeatSequence, h.ledCount, Nat.sub_zero]
  exact hloop

/-! ## Choosing against repeating -/

theorem ready_lightGame {g : Game} (h : g.Ready) (calls : List GameCall) :
    (lightGame.run g calls).Ready := by
  refine lightGame.invariant h (fun g call hg => ?_) calls
  cases call with
  | ledSelect rand => exact ready_ledSelect rand hg
  | ledRepeatSequence pattern => exact ready_ledRepeatSequence pattern hg
  | turnOffColor => exact ready_turnOffColor hg

theorem chosenLed_eq_repeatedLed_iff (r : Nat) :
    chosenLed (letterOf r) = repeatedLed (letterOf r) ↔ r % 4 ≠ 3 := by
  have hr : r % 4 = 0 ∨ r % 4 = 1 ∨ r % 4 = 2 ∨ r % 4 = 3 := by omega
  rcases hr with h | h | h | h <;> simp [letterOf, h] <;> decide

/-- The letter that a lamp is lit for. -/
def letterShown : Led → Char
  | .myled1 => 'a'
  | .myled2 => 'b'
  | .myled3 => 'c'
  | .myled4 => 'd'

theorem letterShown_chosenLed {c : Char} (h : c ∈ ['a', 'b', 'c', 'd']) :
    letterShown (chosenLed c) = asShown c := by
  simp only [List.mem_cons, List.not_mem_nil, or_false] at h
  rcases h with rfl | rfl | rfl | rfl <;> rfl

theorem chosenLed_asShown (c : Char) : chosenLed (asShown c) = chosenLed c := by
  unfold asShown
  split
  · rename_i h
    rw [h]
    rfl
  · rfl

theorem map_chosenLed_eq_iff (p q : Pattern) :
    p.letters.map chosenLed = q.letters.map chosenLed ↔
      p.letters.map asShown = q.letters.map asShown := by
  have hletters (p : Pattern) :
      (p.letters.map chosenLed).map letterShown = p.letters.map asShown := by
    rw [List.map_map]
    exact List.map_congr_left fun c hc => letterShown_chosenLed (p.mem_abcd c hc)
  have hlamps (p : Pattern) :
      (p.letters.map asShown).map chosenLed = p.letters.map chosenLed := by
    rw [List.map_map]
    exact List.map_congr_left fun c _ => chosenLed_asShown c
  constructor
  · intro h
    rw [← hletters, h, hletters]
  · intro h
    rw [← hlamps, h, hlamps]

theorem selectedPattern_all_iff (rand : Nat → Nat) {P : Char → Prop} :
    (∀ c ∈ (selectedPattern rand).letters, P c) ↔ ∀ k < 4, P (letterOf (rand k)) := by
  simp only [selectedPattern, List.forall_mem_cons, List.not_mem_nil, false_implies, implies_true,
    and_true]
  constructor
  · rintro ⟨h₀, h₁, h₂, h₃⟩ k hk
    interval_cases k
    · exact h₀
    · exact h₁
    · exact h₂
    · exact h₃
  · intro h
    exact ⟨h 0 (by omega), h 1 (by omega), h 2 (by omega), h 3 (by omega)⟩

/-- After any calls `ledSelect` returns four letters from `a` to `d`. The lamps it
    has lit are those that `ledRepeatSequence` lights for them, whatever calls come
    between, exactly if no random number is 3 modulo 4; and two calls light the
    same lamps exactly if their patterns agree once every `d` is taken for a `c`. -/
theorem shown_as_repeated_iff (before later : List GameCall) (rand : Nat → Nat) :
    let selected := ledSelect rand (lightGame.run Game.init before)
    (selected.pattern.length = 4 ∧ ∀ c ∈ selected.pattern, c ∈ ['a', 'b', 'c', 'd']) ∧
    (lights selected.events =
        lights (ledRepeatSequence selected.pattern (lightGame.run selected.game later)).2 ↔
      ∀ k < 4, rand k % 4 ≠ 3) ∧
    ∀ (before' : List GameCall) (rand' : Nat → Nat),
      let selected' := ledSelect rand' (lightGame.run Game.init before')
      lights selected.events = lights selected'.events ↔
        selected.pattern.map asShown = selected'.pattern.map asShown := by
  intro selected
  have hready : (lightGame.run Game.init before).Ready := ready_lightGame Game.ready_init before
  have hpattern : selected.pattern = (selectedPattern rand).letters := ledSelect_pattern rand hready
  have hshown : lights selected.events = (selectedPattern rand).letters.map chosenLed :=
    lights_ledSelect rand hready
  refine ⟨?_, ?_, fun before' rand' => ?_⟩
  · rw [hpattern]
    exact ⟨(selectedPattern rand).length_eq, (selectedPattern rand).mem_abcd⟩
  · have hlater : (lightGame.run selected.game later).Ready :=
      ready_lightGame (ready_ledSelect rand hready) later
    rw [hshown, hpattern, lights_ledRepeatSequence _ hlater, List.map_inj_left,
      selectedPattern_all_iff]
    exact forall₂_congr fun k _ => chosenLed_eq_repeatedLed_iff (rand k)
  · have hready' : (lightGame.run Game.init before').Ready := ready_lightGame Game.ready_init before'
    dsimp only
    rw [hshown, lights_ledSelect rand' hready', hpattern, ledSelect_pattern rand' hready']
    exact map_chosenLed_eq_iff _ _

/-- The pattern `dddd` is shown on the third lamp and repeated on the fourth. -/
theorem chosen_on_wrong_lamp :
    ¬ ∀ (before later : List GameCall) (rand : Nat → Nat),
      let selected := ledSelect rand (lightGame.run Game.init before)
      lights selected.events =
        lights (ledRepeatSequence selected.pattern (lightGame.run selected.game later)).2 := by
  intro h
  have hsame := h [] [] fun _ => 3
  revert hsame
  decide

end LedSequence
