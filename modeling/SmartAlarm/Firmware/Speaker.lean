-- SUMMARY: `speaker.cpp`: the alarm song, starting it, and the call that is meant to silence it.
import SmartAlarm.Firmware.SongPlayer
import SmartAlarm.Lib.Machine

/-!
# The speaker

The arrays `note` and `duration` hold the alarm song, with frequency 0 for a
rest. Memory after each array is a parameter of the model.
-/

namespace Speaker

def NOTE_E6 : ℚ := 1319
def NOTE_G6 : ℚ := 1568
def NOTE_A6 : ℚ := 1760
def NOTE_AS6 : ℚ := 1865
def NOTE_B6 : ℚ := 1976
def NOTE_C7 : ℚ := 2093
def NOTE_D7 : ℚ := 2349
def NOTE_E7 : ℚ := 2637
def NOTE_F7 : ℚ := 2794
def NOTE_G7 : ℚ := 3136
def NOTE_A7 : ℚ := 3520

/-- The elements of `note`. -/
def note : List ℚ := [
  NOTE_E7, NOTE_E7, 0, NOTE_E7,
  0, NOTE_C7, NOTE_E7, 0,
  NOTE_G7, 0, 0, 0,
  NOTE_G6, 0, 0, 0,

  NOTE_C7, 0, 0, NOTE_G6,
  0, 0, NOTE_E6, 0,
  0, NOTE_A6, 0, NOTE_B6,
  0, NOTE_AS6, NOTE_A6, 0,

  NOTE_G6, NOTE_E7, NOTE_G7,
  NOTE_A7, 0, NOTE_F7, NOTE_G7,
  0, NOTE_E7, 0, NOTE_C7,
  NOTE_D7, NOTE_B6, 0, 0,

  NOTE_C7, 0, 0, NOTE_G6,
  0, 0, NOTE_E6, 0,
  0, NOTE_A6, 0, NOTE_B6,
  0, NOTE_AS6, NOTE_A6, 0,

  NOTE_G6, NOTE_E7, NOTE_G7,
  NOTE_A7, 0, NOTE_F7, NOTE_G7,
  0, NOTE_E7, 0, NOTE_C7,
  NOTE_D7, NOTE_B6, 0, 0]

/-- The elements of `duration`, in seconds. -/
def duration : List ℚ := [
  0.1, 0.1, 0.1, 0.1,
  0.1, 0.1, 0.1, 0.1,
  0.1, 0.1, 0.1, 0.1,
  0.1, 0.1, 0.1, 0.1,

  0.1, 0.1, 0.1, 0.1,
  0.1, 0.1, 0.1, 0.1,
  0.1, 0.1, 0.1, 0.1,
  0.1, 0.1, 0.1, 0.1,

  0.075, 0.075, 0.075,
  0.1, 0.1, 0.1, 0.1,
  0.1, 0.1, 0.1, 0.1,
  0.1, 0.1, 0.1, 0.1,

  0.1, 0.1, 0.1, 0.1,
  0.1, 0.1, 0.1, 0.1,
  0.1, 0.1, 0.1, 0.1,
  0.1, 0.1, 0.1, 0.1,

  0.075, 0.075, 0.075,
  0.1, 0.1, 0.1, 0.1,
  0.1, 0.1, 0.1, 0.1,
  0.1, 0.1, 0.1, 0.1]

/-- The elements of `off`. -/
def off : List ℚ := [0.0]

/-- What memory holds behind the three arrays. -/
structure Memory where
  afterNote : Nat → ℚ
  afterDuration : Nat → ℚ
  afterOff : Nat → ℚ

variable (mem : Memory)

/-- `speakerInit`, with `PlaySong`'s default volume. -/
def speakerInit : SongPlayer × List SongEvent :=
  SongPlayer.playSong ⟨note, mem.afterNote⟩ ⟨duration, mem.afterDuration⟩ 1

def turnOffSpeaker : SongPlayer × List SongEvent :=
  SongPlayer.playSong ⟨off, mem.afterOff⟩ ⟨off, mem.afterOff⟩ 1

/-! ## Calls and callbacks -/

inductive Call where
  | speakerInit
  | nextnote
deriving DecidableEq, Repr

/-- The alarm song under calls of `speakerInit` and timer callbacks. A callback
    can only come when the `Timeout` is armed. -/
def playback : Machine SongPlayer Call SongEvent where
  step p
    | .speakerInit => speakerInit mem
    | .nextnote    => if p.noteduration.isSome then p.nextnote else (p, [])

end Speaker
