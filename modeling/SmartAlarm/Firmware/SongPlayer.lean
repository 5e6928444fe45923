-- SUMMARY: `SongPlayer.h`: the first note started by `PlaySong`, the others by the timer callback `nextnote`.
import Mathlib.Data.Rat.Defs

/-!
# The song player

`PlaySong` starts the first note of a song and arms a `Timeout`; the callback
`nextnote` moves on and arms it again until it meets a duration of 0. The arrays
are passed as bare pointers, so a read is not bounded by their length.
Frequencies and durations are exact rationals.
-/

/-- A C array behind a pointer: its elements, and what memory holds after them. -/
structure FloatPtr where
  elems : List ℚ
  beyond : Nat → ℚ

def FloatPtr.read (a : FloatPtr) (i : Nat) : ℚ := a.elems.getD i (a.beyond i)

/-- An access or a device command of the player, in program order. -/
inductive SongEvent where
  | readFrequency (i : Nat)
  | readDuration (i : Nat)
  /-- `_pin.period(1.0 / frequency)`. -/
  | period (frequency : ℚ)
  /-- `_pin = duty`. -/
  | duty (q : ℚ)
  /-- `noteduration.attach(this, &SongPlayer::nextnote, s)`. -/
  | attach (s : ℚ)
deriving DecidableEq, Repr

structure SongPlayer where
  /-- The delay of the pending callback, if there is one. -/
  noteduration : Option ℚ
  /-- The duty cycle of `_pin`. -/
  pin : ℚ
  notecount : Nat
  vol : ℚ
  frequencyptr : FloatPtr
  durationptr : FloatPtr

namespace SongPlayer

/-- The player before its first song. -/
def init : SongPlayer where
  noteduration := none
  pin := 0
  notecount := 0
  vol := 0
  frequencyptr := ⟨[], fun _ => 0⟩
  durationptr := ⟨[], fun _ => 0⟩

/-- `PlaySong`. Attaching replaces whatever callback was pending. -/
def playSong (frequency duration : FloatPtr) (volume : ℚ) : SongPlayer × List SongEvent :=
  ({ vol := volume
     notecount := 0
     pin := volume / 2
     noteduration := some (duration.read 0)
     frequencyptr := frequency
     durationptr := duration },
    [.readFrequency 0, .period (frequency.read 0), .duty (volume / 2),
      .readDuration 0, .attach (duration.read 0)])

/-- The interrupt routine `nextnote`, entered when the pending callback fires. -/
def nextnote (p : SongPlayer) : SongPlayer × List SongEvent :=
  let n := p.notecount + 1
  let d := p.durationptr.read n
  if d ≠ 0 then
    ({ p with notecount := n, noteduration := some d, pin := p.vol / 2 },
      [.duty 0, .readDuration n, .readFrequency n, .period (p.frequencyptr.read n),
        .readDuration n, .attach d, .duty (p.vol / 2)])
  else
    ({ p with notecount := n, noteduration := none, pin := 0 },
      [.duty 0, .readDuration n, .duty 0])

/-- The `Timeout`: a callback comes only while one is pending. -/
def callback (p : SongPlayer) : SongPlayer × List SongEvent :=
  if p.noteduration.isSome then p.nextnote else (p, [])

/-- A song from its start: call 0 is `PlaySong`, call `k` is the callback number `k`. -/
def calls (frequency duration : FloatPtr) (volume : ℚ) : Nat → SongPlayer × List SongEvent
  | 0     => playSong frequency duration volume
  | k + 1 => callback (calls frequency duration volume k).1

end SongPlayer
