-- SUMMARY: What `PlaySong` and its callbacks play of a terminated song, and what they do at a rest.
import SmartAlarm.Properties.Playback
import Mathlib.Data.List.Basic

/-!
# Songs

A song ends at its first duration of 0, at index `n`. `PlaySong` starts the note
at index 0 without looking at its duration, and `nextnote` takes the reciprocal
of whatever frequency it comes to. So a song is played as it is written if it
has a note at all, and safely if it has no rest.
-/

namespace SongPlayer

open Speaker (readIndex)

variable {frequency duration : FloatPtr} {volume : ℚ} {n k : Nat}

/-! ## Sounds -/

/-- A tone with its frequency, its duty cycle and its length. -/
structure Sound where
  frequency : ℚ
  duty : ℚ
  seconds : ℚ
deriving DecidableEq

/-- The frequencies whose reciprocals were requested as periods. -/
def periods (events : List SongEvent) : List ℚ :=
  events.filterMap fun
    | .period q => some q
    | _         => none

/-- What sounds after a call, until the callback that it has armed. -/
def soundOf (call : SongPlayer × List SongEvent) : Option Sound :=
  call.1.noteduration.map fun s => ⟨(periods call.2).getLastD 0, call.1.pin, s⟩

/-- The note at index `i` of a song. -/
def noteAt (frequency duration : FloatPtr) (volume : ℚ) (i : Nat) : Sound :=
  ⟨frequency.read i, volume / 2, duration.read i⟩

/-! ## The calls of a song -/

/-- The player while the note at index `k` sounds. -/
def atNote (frequency duration : FloatPtr) (volume : ℚ) (k : Nat) : SongPlayer where
  noteduration := some (duration.read k)
  pin := volume / 2
  notecount := k
  vol := volume
  frequencyptr := frequency
  durationptr := duration

/-- The player after a song that ends at index `n`. -/
def atEnd (frequency duration : FloatPtr) (volume : ℚ) (n : Nat) : SongPlayer :=
  { atNote frequency duration volume n with noteduration := none, pin := 0 }

/-- What a call at index `k` does if it finds a note there. -/
def noteEvents (frequency duration : FloatPtr) (volume : ℚ) : Nat → List SongEvent
  | 0     => (playSong frequency duration volume).2
  | k + 1 => [.duty 0, .readDuration (k + 1), .readFrequency (k + 1),
      .period (frequency.read (k + 1)), .readDuration (k + 1), .attach (duration.read (k + 1)),
      .duty (volume / 2)]

theorem callback_atNote (h : duration.read (k + 1) ≠ 0) :
    callback (atNote frequency duration volume k) =
      (atNote frequency duration volume (k + 1), noteEvents frequency duration volume (k + 1)) := by
  simp [callback, nextnote, atNote, noteEvents, h]

theorem callback_atNote_end (h : duration.read (k + 1) = 0) :
    callback (atNote frequency duration volume k) =
      (atEnd frequency duration volume (k + 1), [.duty 0, .readDuration (k + 1), .duty 0]) := by
  simp [callback, nextnote, atNote, atEnd, h]

/-- While the song lasts, call `k` starts the note at index `k`. -/
theorem calls_of_lt (h : ∀ i < n, duration.read i ≠ 0) (hk : k < n) :
    calls frequency duration volume k =
      (atNote frequency duration volume k, noteEvents frequency duration volume k) := by
  induction k with
  | zero => rfl
  | succ k ih =>
    rw [calls, ih (by omega)]
    exact callback_atNote (h (k + 1) hk)

/-- Call `n` finds the terminator. -/
theorem calls_eq_end (h : ∀ i < n, duration.read i ≠ 0) (hend : duration.read n = 0) (hn : 0 < n) :
    calls frequency duration volume n =
      (atEnd frequency duration volume n, [.duty 0, .readDuration n, .duty 0]) := by
  obtain ⟨k, rfl⟩ : ∃ k, n = k + 1 := ⟨n - 1, by omega⟩
  rw [calls, calls_of_lt h (by omega)]
  exact callback_atNote_end hend

/-- After the terminator there is no call. -/
theorem calls_of_gt (h : ∀ i < n, duration.read i ≠ 0) (hend : duration.read n = 0) (hn : 0 < n)
    (hk : n < k) :
    calls frequency duration volume k = (atEnd frequency duration volume n, []) := by
  induction k with
  | zero => omega
  | succ k ih =>
    rw [calls]
    by_cases hkn : n < k
    · rw [ih hkn]
      rfl
    · obtain rfl : n = k := by omega
      rw [calls_eq_end h hend hn]
      rfl

theorem soundOf_note (frequency duration : FloatPtr) (volume : ℚ) (k : Nat) :
    soundOf (atNote frequency duration volume k, noteEvents frequency duration volume k) =
      some (noteAt frequency duration volume k) := by
  cases k <;> rfl

theorem readIndex_noteEvents (frequency duration : FloatPtr) (volume : ℚ) (k : Nat) :
    ∀ e ∈ noteEvents frequency duration volume k, ∀ i ∈ readIndex e, i = k := by
  intro e he
  cases k with
  | zero =>
    simp only [noteEvents, playSong, List.mem_cons, List.not_mem_nil, or_false] at he
    rcases he with rfl | rfl | rfl | rfl | rfl <;> simp [readIndex]
  | succ k =>
    simp only [noteEvents, List.mem_cons, List.not_mem_nil, or_false] at he
    rcases he with rfl | rfl | rfl | rfl | rfl | rfl | rfl <;> simp [readIndex]

/-! ## Playing a terminated song -/

/-- `PlaySong` and all its callbacks sound the notes before index `n`, each once
    and in order, read no place beyond `n`, and end in silence. -/
def PlaysExactly (frequency duration : FloatPtr) (volume : ℚ) (n : Nat) : Prop :=
  ∃ k, (∀ j < k, (calls frequency duration volume j).1.noteduration ≠ none) ∧
    (calls frequency duration volume k).1.noteduration = none ∧
    (calls frequency duration volume k).1.pin = 0 ∧
    (List.range (k + 1)).filterMap (fun j => soundOf (calls frequency duration volume j)) =
      (List.range n).map (noteAt frequency duration volume) ∧
    ∀ j ≤ k, ∀ e ∈ (calls frequency duration volume j).2, ∀ i ∈ readIndex e, i ≤ n

theorem playsExactly_of_pos (hend : duration.read n = 0) (h : ∀ i < n, duration.read i ≠ 0)
    (hn : 0 < n) : PlaysExactly frequency duration volume n := by
  have hlast : calls frequency duration volume n =
      (atEnd frequency duration volume n, [.duty 0, .readDuration n, .duty 0]) :=
    calls_eq_end h hend hn
  refine ⟨n, fun j hj => ?_, ?_, ?_, ?_, fun j hj e he i hi => ?_⟩
  · rw [calls_of_lt h hj]
    simp [atNote]
  · rw [hlast]
    rfl
  · rw [hlast]
    rfl
  · have hnotes : ∀ j ∈ List.range n, soundOf (calls frequency duration volume j) =
        some (noteAt frequency duration volume j) := by
      intro j hj
      rw [calls_of_lt h (List.mem_range.mp hj), soundOf_note]
    have hsilent : soundOf (calls frequency duration volume n) = none := by
      rw [hlast]
      rfl
    rw [List.range_succ, List.filterMap_append, List.filterMap_congr hnotes]
    simp [hsilent]
  · rcases Nat.lt_or_eq_of_le hj with hlt | rfl
    · rw [calls_of_lt h hlt] at he
      have := readIndex_noteEvents _ _ _ _ e he i hi
      omega
    · rw [hlast] at he
      simp only [List.mem_cons, List.not_mem_nil, or_false] at he
      rcases he with rfl | rfl | rfl <;> simp_all [readIndex]

/-- A song without a note is read behind its end: its first callback looks at index 1. -/
theorem not_playsExactly_zero : ¬ PlaysExactly frequency duration volume 0 := by
  rintro ⟨k, -, hdone, -, -, hreads⟩
  cases k with
  | zero => cases hdone
  | succ k =>
    have hread := hreads 1 (by omega) (.readDuration 1)
      (by
        have hcall : calls frequency duration volume 1 =
          (atNote frequency duration volume 0).nextnote := rfl
        rw [hcall]
        exact Speaker.readDuration_mem_nextnote) 1 rfl
    omega

/-- For every song with its first 0.0 duration at index `n`. -/
theorem playsExactly_iff (hend : duration.read n = 0) (h : ∀ i < n, duration.read i ≠ 0) :
    PlaysExactly frequency duration volume n ↔ 0 < n := by
  refine ⟨fun hplays => ?_, playsExactly_of_pos hend h⟩
  by_contra hn
  obtain rfl : n = 0 := by omega
  exact not_playsExactly_zero hplays

/-- A song of two notes. -/
def twoNotes : FloatPtr × FloatPtr := (⟨[440, 494, 523], fun _ => 0⟩, ⟨[0.5, 0.25, 0], fun _ => 0⟩)

theorem plays_twoNotes : PlaysExactly twoNotes.1 twoNotes.2 1 2 :=
  (playsExactly_iff (by decide +kernel) (by decide +kernel)).mpr (by omega)

/-- A song that is over before it begins is read behind the end of its arrays. -/
theorem empty_song_read_past_end :
    ¬ ∀ (frequency duration : FloatPtr) (volume : ℚ) (n : Nat),
      n < frequency.elems.length → n < duration.elems.length →
      (∀ q ∈ frequency.elems, 0 < q) → (∀ s ∈ duration.elems, 0 ≤ s) →
      duration.read n = 0 → (∀ i < n, duration.read i ≠ 0) →
        PlaysExactly frequency duration volume n := by
  intro h
  exact not_playsExactly_zero (h ⟨[440], fun _ => 0⟩ ⟨[0], fun _ => 0⟩ 1 0 (by decide) (by decide)
    (by decide +kernel) (by decide +kernel) rfl (by omega))

/-! ## Rests -/

/-- Every period that is requested is the reciprocal of the frequency at the
    position reached, which is not 0, and a position with frequency 0 is silent. -/
def RestsSilent (frequency duration : FloatPtr) (volume : ℚ) : Prop :=
  ∀ k, (∀ q ∈ periods (calls frequency duration volume k).2,
      q = frequency.read (calls frequency duration volume k).1.notecount ∧ q ≠ 0) ∧
    (frequency.read (calls frequency duration volume k).1.notecount = 0 →
      (calls frequency duration volume k).1.pin = 0)

theorem periods_noteEvents (frequency duration : FloatPtr) (volume : ℚ) (k : Nat) :
    periods (noteEvents frequency duration volume k) = [frequency.read k] := by
  cases k <;> rfl

/-- A terminated song that has a note is played without a division by 0, and with
    silent rests, exactly if it has no rest. -/
theorem restsSilent_iff (hend : duration.read n = 0) (h : ∀ i < n, duration.read i ≠ 0)
    (hn : 0 < n) : RestsSilent frequency duration volume ↔ ∀ i < n, frequency.read i ≠ 0 := by
  constructor
  · intro hsilent i hi
    refine ((hsilent i).1 (frequency.read i) ?_).2
    rw [calls_of_lt h hi, periods_noteEvents]
    exact List.mem_cons_self
  · intro hsound k
    rcases Nat.lt_trichotomy k n with hk | rfl | hk
    · rw [calls_of_lt h hk, periods_noteEvents]
      refine ⟨fun q hq => ?_, fun hrest => absurd hrest (hsound k hk)⟩
      obtain rfl : q = frequency.read k := by simpa using hq
      exact ⟨rfl, hsound k hk⟩
    · rw [calls_eq_end h hend hn]
      exact ⟨by simp [periods], fun _ => rfl⟩
    · rw [calls_of_gt h hend hn hk]
      exact ⟨by simp [periods], fun _ => rfl⟩

theorem rests_of_twoNotes : RestsSilent twoNotes.1 twoNotes.2 1 :=
  (restsSilent_iff (n := 2) (by decide +kernel) (by decide +kernel) (by omega)).mpr
    (by decide +kernel)

/-- The rest in a song of a note, a rest and a note is sounded, with a period of 1 / 0. -/
theorem rest_divides_by_zero :
    ¬ ∀ (frequency duration : FloatPtr) (volume : ℚ) (n : Nat),
      (∀ q ∈ frequency.elems, 0 ≤ q) → duration.read n = 0 →
      (∀ i < n, duration.read i ≠ 0) → 0 < n → RestsSilent frequency duration volume := by
  intro h
  have hrest := h ⟨[440, 0, 440, 440], fun _ => 0⟩ ⟨[0.1, 0.1, 0.1, 0], fun _ => 0⟩ 1 3
    (by decide +kernel) (by decide +kernel) (by decide +kernel) (by omega) 1
  have hperiod := hrest.1 0 (by decide +kernel)
  exact hperiod.2 rfl

end SongPlayer
