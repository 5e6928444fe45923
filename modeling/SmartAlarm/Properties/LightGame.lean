-- SUMMARY: `ledSelect` ends, leaves the game ready for the next call, and returns four letters from a to d.
import SmartAlarm.Firmware.LedSequence

/-!
# The light game's patterns

Between calls `ledCount` is 0 and the fifth place of the buffer is the
terminator. From such a state `ledSelect` fills the other four places, so what
it returns is always a pattern.
-/

namespace LedSequence

/-- Four letters from `a` to `d`. -/
structure Pattern where
  letters : List Char
  length_eq : letters.length = 4
  mem_abcd : ∀ c ∈ letters, c ∈ ['a', 'b', 'c', 'd']
deriving DecidableEq

/-- The state of the game between two calls. -/
structure Game.Ready (g : Game) : Prop where
  ledCount : g.ledCount = 0
  ledPattern : ∃ c₀ c₁ c₂ c₃, g.ledPattern = [c₀, c₁, c₂, c₃, '\x00']

theorem Game.ready_init : Game.init.Ready := ⟨rfl, '\x00', '\x00', '\x00', '\x00', rfl⟩

/-- The letter that `ledSelect` stores for a random number. -/
def letterOf (r : Nat) : Char :=
  if r % 4 = 0 then 'a' else if r % 4 = 1 then 'b' else if r % 4 = 2 then 'c' else 'd'

theorem letterOf_mem (r : Nat) : letterOf r ∈ ['a', 'b', 'c', 'd'] := by
  unfold letterOf
  split_ifs <;> simp

theorem letterOf_ne_zero (r : Nat) : letterOf r ≠ '\x00' := by
  unfold letterOf
  split_ifs <;> decide

theorem selectPass_ledPattern (r : Nat) (g : Game) :
    (selectPass r g).1.ledPattern = g.ledPattern.set g.ledCount (letterOf r) := by
  have hr : r % 4 = 0 ∨ r % 4 = 1 ∨ r % 4 = 2 ∨ r % 4 = 3 := by omega
  rcases hr with h | h | h | h <;> simp [selectPass, letterOf, Game.choose, Game.switchOff, h]

theorem selectPass_ledCount (r : Nat) (g : Game) :
    (selectPass r g).1.ledCount = g.ledCount + 1 := by
  have hr : r % 4 = 0 ∨ r % 4 = 1 ∨ r % 4 = 2 ∨ r % 4 = 3 := by omega
  rcases hr with h | h | h | h <;> simp [selectPass, Game.choose, Game.switchOff, h]

/-- Four passes write the buffer from left to right. -/
theorem selectLoop_ledPattern {g : Game} (rand : Nat → Nat) (h : g.Ready) :
    (selectLoop rand 4 g).1.ledPattern =
      [letterOf (rand 0), letterOf (rand 1), letterOf (rand 2), letterOf (rand 3), '\x00'] := by
  obtain ⟨hcount, c₀, c₁, c₂, c₃, hbuf⟩ := h
  simp [selectLoop, selectPass_ledPattern, selectPass_ledCount, hcount, hbuf]

/-- The pattern of four random numbers. -/
def selectedPattern (rand : Nat → Nat) : Pattern where
  letters := [letterOf (rand 0), letterOf (rand 1), letterOf (rand 2), letterOf (rand 3)]
  length_eq := rfl
  mem_abcd := by
    intro c hc
    simp only [List.mem_cons, List.not_mem_nil, or_false] at hc
    rcases hc with rfl | rfl | rfl | rfl <;> exact letterOf_mem _

/-- What `ledSelect` returns is a pattern. -/
theorem ledSelect_pattern {g : Game} (rand : Nat → Nat) (h : g.Ready) :
    (ledSelect rand g).pattern = (selectedPattern rand).letters := by
  simp only [ledSelect, h.ledCount, Nat.sub_zero, selectLoop_ledPattern rand h, cString]
  simp [letterOf_ne_zero, selectedPattern]

theorem exists_letterOf {c : Char} (h : c ∈ ['a', 'b', 'c', 'd']) : ∃ r, letterOf r = c := by
  simp only [List.mem_cons, List.not_mem_nil, or_false] at h
  rcases h with rfl | rfl | rfl | rfl
  · exact ⟨0, rfl⟩
  · exact ⟨1, rfl⟩
  · exact ⟨2, rfl⟩
  · exact ⟨3, rfl⟩

/-- Every pattern is returned for some random numbers. -/
theorem exists_selectedPattern (p : Pattern) : ∃ rand, selectedPattern rand = p := by
  obtain ⟨letters, hlength, hmem⟩ := p
  obtain ⟨c₀, c₁, c₂, c₃, rfl⟩ : ∃ c₀ c₁ c₂ c₃, letters = [c₀, c₁, c₂, c₃] := by
    match letters, hlength with
    | [c₀, c₁, c₂, c₃], _ => exact ⟨c₀, c₁, c₂, c₃, rfl⟩
  obtain ⟨r₀, rfl⟩ := exists_letterOf (hmem c₀ (by simp))
  obtain ⟨r₁, rfl⟩ := exists_letterOf (hmem c₁ (by simp))
  obtain ⟨r₂, rfl⟩ := exists_letterOf (hmem c₂ (by simp))
  obtain ⟨r₃, rfl⟩ := exists_letterOf (hmem c₃ (by simp))
  exact ⟨fun n => [r₀, r₁, r₂, r₃].getD n 0, rfl⟩

theorem ready_ledSelect {g : Game} (rand : Nat → Nat) (h : g.Ready) :
    (ledSelect rand g).game.Ready := by
  refine ⟨rfl, letterOf (rand 0), letterOf (rand 1), letterOf (rand 2), letterOf (rand 3), ?_⟩
  simp only [ledSelect, h.ledCount, Nat.sub_zero, selectLoop_ledPattern rand h]

theorem repeatPass_ledPattern (pattern : List Char) (g : Game) :
    (repeatPass pattern g).1.ledPattern = g.ledPattern := by
  unfold repeatPass
  split_ifs <;> rfl

theorem repeatLoop_ledPattern (pattern : List Char) (n : Nat) (g : Game) :
    (repeatLoop pattern n g).1.ledPattern = g.ledPattern := by
  induction n generalizing g with
  | zero => rfl
  | succ n ih =>
    simp only [repeatLoop]
    split
    · rw [ih, repeatPass_ledPattern]
    · rfl

theorem ready_ledRepeatSequence {g : Game} (pattern : List Char) (h : g.Ready) :
    (ledRepeatSequence pattern g).1.Ready := by
  obtain ⟨c₀, c₁, c₂, c₃, hbuf⟩ := h.ledPattern
  refine ⟨rfl, c₀, c₁, c₂, c₃, ?_⟩
  simp only [ledRepeatSequence, repeatLoop_ledPattern, hbuf]

theorem ready_turnOffColor {g : Game} (h : g.Ready) : (turnOffColor g).1.Ready := by
  unfold turnOffColor
  split
  · exact ⟨h.ledCount, h.ledPattern⟩
  · exact h

end LedSequence
