-- SUMMARY: Alarm playback reads inside the song exactly when no 78 callbacks come between two restarts.
import SmartAlarm.Firmware.Speaker
import SmartAlarm.Lib.Blocks
import Mathlib.Data.List.GetD

/-!
# Alarm playback

The array `duration` has no 0.0 at its end, so `nextnote` has nothing to stop
at: callback number `n` after a restart reads index `n`. A restart before the
last element keeps the reads inside the arrays; nothing else does.
-/

namespace Speaker

/-- The index of an array read. -/
def readIndex : SongEvent → Option Nat
  | .readFrequency i => some i
  | .readDuration i  => some i
  | _                => none

/-- A read stays inside both arrays of the alarm song. -/
def InSong (e : SongEvent) : Prop := ∀ i ∈ readIndex e, i < note.length ∧ i < duration.length

theorem length_note : note.length = 78 := rfl
theorem length_duration : duration.length = 78 := rfl

/-- No element of `duration` is the terminator that `nextnote` looks for. -/
theorem duration_ne_zero : ∀ d ∈ duration, d ≠ 0 := by
  decide +kernel

variable {mem : Memory} {p : SongPlayer} {k : Nat}

/-- The alarm song is playing, `k` callbacks after its start. -/
structure Playing (mem : Memory) (k : Nat) (p : SongPlayer) : Prop where
  notecount : p.notecount = k
  frequencyptr : p.frequencyptr = ⟨note, mem.afterNote⟩
  durationptr : p.durationptr = ⟨duration, mem.afterDuration⟩
  armed : p.noteduration.isSome

theorem playing_speakerInit : Playing mem 0 (speakerInit mem).1 := ⟨rfl, rfl, rfl, rfl⟩

theorem inSong_speakerInit : ∀ e ∈ (speakerInit mem).2, InSong e := by
  intro e he
  simp only [speakerInit, SongPlayer.playSong, List.mem_cons, List.not_mem_nil, or_false] at he
  rcases he with rfl | rfl | rfl | rfl | rfl <;>
    simp [InSong, readIndex, length_note, length_duration]

/-- Every read of a callback is at the index it advances to. -/
theorem readIndex_nextnote {e : SongEvent} (he : e ∈ p.nextnote.2) :
    ∀ i ∈ readIndex e, i = p.notecount + 1 := by
  simp only [SongPlayer.nextnote] at he
  split at he <;> simp only [List.mem_cons, List.not_mem_nil, or_false] at he
  · rcases he with rfl | rfl | rfl | rfl | rfl | rfl | rfl <;> simp [readIndex]
  · rcases he with rfl | rfl | rfl <;> simp [readIndex]

theorem readDuration_mem_nextnote : .readDuration (p.notecount + 1) ∈ p.nextnote.2 := by
  simp only [SongPlayer.nextnote]
  split <;> simp

/-- A callback before the last element finds a duration that is not 0 and goes on. -/
theorem Playing.nextnote (h : Playing mem k p) (hk : k + 1 < 78) :
    Playing mem (k + 1) p.nextnote.1 := by
  have hread : p.durationptr.read (p.notecount + 1) ≠ 0 := by
    rw [h.durationptr, h.notecount, FloatPtr.read, List.getD_eq_getElem _ _ hk]
    exact duration_ne_zero _ (List.getElem_mem _)
  simp only [SongPlayer.nextnote, if_pos hread]
  exact ⟨congrArg (· + 1) h.notecount, h.frequencyptr, h.durationptr, rfl⟩

@[simp] theorem playback_speakerInit :
    (playback mem).step p .speakerInit = speakerInit mem := rfl

theorem Playing.step_nextnote (h : Playing mem k p) :
    (playback mem).step p .nextnote = p.nextnote := by
  simp only [playback, h.armed, if_true]

/-- While the song plays, its reads stay in the song as long as the callbacks
    since the last restart stay below 78. -/
theorem Playing.inSong_iff (h : Playing mem k p) (hk : k < 78) (calls : List Call) :
    (∀ e ∈ (playback mem).trace p calls, InSong e) ↔ Blocks.Below .nextnote 78 k calls := by
  induction calls generalizing p k with
  | nil => simp [Blocks.Below]
  | cons call calls ih =>
    rw [Machine.trace_cons]
    cases call with
    | speakerInit =>
      have hrest := ih playing_speakerInit (by omega)
      simp only [Machine.out, Machine.next, playback_speakerInit, List.forall_mem_append,
        Blocks.Below, reduceCtorEq, if_false, hrest, and_iff_right_iff_imp]
      exact fun _ => inSong_speakerInit
    | nextnote =>
      simp only [Machine.out, Machine.next, h.step_nextnote, List.forall_mem_append,
        Blocks.Below, if_true]
      by_cases hk' : k + 1 < 78
      · have hout : ∀ e ∈ p.nextnote.2, InSong e := by
          intro e he i hi
          rw [readIndex_nextnote he i hi, h.notecount, length_note, length_duration]
          exact ⟨hk', hk'⟩
        rw [ih (h.nextnote hk') hk']
        exact and_congr_left fun _ => ⟨fun _ => hk', fun _ => hout⟩
      · refine ⟨fun hall => ?_, fun hbelow => absurd hbelow.1 hk'⟩
        have hread := hall.1 _ readDuration_mem_nextnote _ rfl
        rw [h.notecount, length_note] at hread
        exact absurd hread.1 hk'

/-- Every read of a playback that begins with `speakerInit` stays inside the
    arrays exactly when the calls contain no 78 callbacks in a row. -/
theorem playback_inSong_iff (mem : Memory) (p : SongPlayer) (calls : List Call) :
    (∀ e ∈ (playback mem).trace p (.speakerInit :: calls), InSong e) ↔
      ¬ List.replicate 78 .nextnote <:+: calls := by
  have hstart : Playing mem 0 (speakerInit mem).1 := playing_speakerInit
  rw [← Blocks.below_zero_iff (by omega), ← hstart.inSong_iff (by omega)]
  simp only [Machine.trace_cons, Machine.out, Machine.next, playback_speakerInit,
    List.forall_mem_append, and_iff_right_iff_imp]
  exact fun _ => inSong_speakerInit

/-- A song left alone for its whole length is read one place past its end. -/
theorem playback_leaves_song :
    ¬ ∀ (mem : Memory) (calls : List Call),
      ∀ e ∈ (playback mem).trace SongPlayer.init (.speakerInit :: calls), InSong e := by
  intro h
  let mem : Memory := ⟨fun _ => 0, fun _ => 0, fun _ => 0⟩
  have hall : ∀ e ∈ (playback mem).trace (speakerInit mem).1 (List.replicate 78 .nextnote),
      InSong e := by
    intro e he
    refine h mem (List.replicate 78 .nextnote) e ?_
    rw [Machine.trace_cons]
    exact List.mem_append_right _ he
  rw [playing_speakerInit.inSong_iff (by omega), Blocks.below_zero_iff (by omega)] at hall
  exact hall List.infix_rfl

end Speaker
