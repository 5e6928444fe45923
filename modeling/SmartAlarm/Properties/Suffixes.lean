-- SUMMARY: What `checkSuffix` decides: whether two arrays of ten bytes are the same, and when that is the question it was asked.
import SmartAlarm.Firmware.CheckSuffix
import Mathlib.Data.List.OfFn

/-!
# Suffixes

The loop of `checkSuffix` does find out whether one sequence of bytes is the end
of another. It is run over the whole arrays, though, not over the texts in them,
and two arrays of one size are the end of one another only if they are the same.
-/

namespace Firmware

open Libc

/-! ## The loop -/

section

variable {n1 n2 : Nat} {s1 : Buffer n1} {s2 : Buffer n2}

/-- With `k` passes to go the loop has the first `k` bytes of the shorter array before it. -/
theorem suffixLoop_iff (hn : n2 ≤ n1) {k : Nat} (hk : k ≤ n2) :
    suffixLoop s1 s2 hn k hk = true ↔
      ∀ j (hj : j < k), s1 ⟨n1 - n2 + j, by omega⟩ = s2 ⟨j, by omega⟩ := by
  induction k with
  | zero => simp [suffixLoop]
  | succ k ih =>
    have hread : s1 ⟨n1 - (n2 - (k + 1)) - 1, by omega⟩ = s1 ⟨n1 - n2 + k, by omega⟩ :=
      congrArg s1 (Fin.ext (by simp only; omega))
    have hread' : s2 ⟨n2 - (n2 - (k + 1)) - 1, by omega⟩ = s2 ⟨k, by omega⟩ :=
      congrArg s2 (Fin.ext (by simp only; omega))
    simp only [suffixLoop, hread, hread']
    by_cases heq : s1 ⟨n1 - n2 + k, by omega⟩ = s2 ⟨k, by omega⟩
    · rw [if_neg (not_not.mpr heq), ih]
      constructor
      · intro h j hj
        rcases Nat.lt_succ_iff_lt_or_eq.mp hj with hlt | rfl
        · exact h j hlt
        · exact heq
      · exact fun h j hj => h j (Nat.lt_succ_of_lt hj)
    · rw [if_pos heq]
      exact iff_of_false Bool.false_ne_true fun h => heq (h k (Nat.lt_succ_self k))

/-- The comparison finds out whether the one array is the end of the other. -/
theorem compareEnds_iff : compareEnds s1 s2 = true ↔ List.ofFn s2 <:+ List.ofFn s1 := by
  unfold compareEnds
  split
  · rename_i hlt
    refine iff_of_false Bool.false_ne_true fun h => ?_
    have hlen := h.length_le
    rw [List.length_ofFn, List.length_ofFn] at hlen
    omega
  · rename_i hle
    rw [suffixLoop_iff, List.suffix_iff_eq_drop, List.length_ofFn, List.length_ofFn]
    constructor
    · intro h
      refine List.ext_getElem (by simp; omega) fun j hj _ => ?_
      rw [List.length_ofFn] at hj
      rw [List.getElem_drop, List.getElem_ofFn, List.getElem_ofFn]
      exact (h j hj).symm
    · intro h j hj
      have hat := List.getElem_of_eq h (i := j) (by simpa using hj)
      rw [List.getElem_drop, List.getElem_ofFn, List.getElem_ofFn] at hat
      exact hat.symm

/-- Arrays of one size are the end of one another only if they are the same. -/
theorem compareEnds_eq_iff {s t : Buffer n1} : compareEnds s t = true ↔ s = t := by
  rw [compareEnds_iff]
  constructor
  · intro h
    exact (List.ofFn_injective (h.eq_of_length (by simp))).symm
  · rintro rfl
    exact List.suffix_rfl

end

/-! ## The texts in the arrays -/

/-- The text that `sprintf` writes, without its terminating zero. -/
def printed (n : Int32) : List UInt8 := (Decimal.text n.toInt).map Char.toUInt8

theorem toNat_toUInt8 {c : Char} (h : c.toNat < 256) : c.toUInt8.toNat = c.toNat :=
  Nat.mod_eq_of_lt h

theorem zero_not_mem_printed (n : Int32) : 0 ∉ printed n := by
  intro h
  obtain ⟨c, hc, hzero⟩ := List.mem_map.mp h
  have hcode := Decimal.toNat_of_mem_text hc
  have hbyte := toNat_toUInt8 (c := c) (by omega)
  rw [hzero] at hbyte
  have hnat : c.toNat = 0 := hbyte.symm
  omega

theorem printed_inj {m n : Int32} : printed m = printed n ↔ m = n := by
  refine ⟨fun h => ?_, congrArg printed⟩
  have hread (k : Int32) : (printed k).map (fun b => Char.ofNat b.toNat) = Decimal.text k.toInt := by
    rw [printed, List.map_map]
    refine (List.map_congr_left fun c hc => ?_).trans (List.map_id _)
    have hcode := Decimal.toNat_of_mem_text hc
    rw [Function.comp, toNat_toUInt8 (by omega), Char.ofNat_toNat]
    rfl
  have htext : Decimal.text m.toInt = Decimal.text n.toInt := by rw [← hread, h, hread]
  exact Int32.toInt_inj.mp (Decimal.text_inj.mp htext)

theorem length_printed (n : Int32) : (printed n).length = (Decimal.text n.toInt).length :=
  List.length_map _

/-- The text has nine characters at most, so it fits with its zero. -/
def Fits (n : Int32) : Prop := -99999999 ≤ n.toInt ∧ n.toInt ≤ 999999999

theorem length_printed_lt_iff (n : Int32) : (printed n).length < 10 ↔ Fits n := by
  rw [length_printed, Nat.lt_succ_iff, Decimal.length_text_le_iff n.toInt (show 0 < 8 by decide), Fits]
  omega

theorem sprintf_of_fits {n : Int32} (h : Fits n) (s : Buffer 10) :
    sprintf s n = some (Terminated.store 0 s (printed n)) :=
  if_pos ((length_printed_lt_iff n).mpr h)

theorem sprintf_of_not_fits {n : Int32} (h : ¬ Fits n) (s : Buffer 10) : sprintf s n = none :=
  if_neg fun hlt => h ((length_printed_lt_iff n).mp hlt)

theorem fits_of_checkSuffix {A B : Int32} {s1 s2 : Buffer 10} {r : Bool}
    (h : checkSuffix A B s1 s2 = some r) : Fits A ∧ Fits B := by
  constructor
  · by_contra hA
    simp [checkSuffix, sprintf_of_not_fits hA] at h
  · by_contra hB
    simp [checkSuffix, sprintf_of_not_fits hB] at h

/-- If both texts fit, the test asks whether the numbers are the same and the
    bytes behind their texts, too. -/
theorem checkSuffix_of_fits {A B : Int32} (hA : Fits A) (hB : Fits B) (s1 s2 : Buffer 10) :
    ∃ r, checkSuffix A B s1 s2 = some r ∧
      (r = true ↔ A = B ∧ ∀ j : Fin 10, (Decimal.text A.toInt).length < j → s1 j = s2 j) := by
  refine ⟨_, by rw [checkSuffix, sprintf_of_fits hA, sprintf_of_fits hB]; rfl, ?_⟩
  rw [compareEnds_eq_iff, Terminated.store_eq_store_iff (zero_not_mem_printed A)
    (zero_not_mem_printed B) ((length_printed_lt_iff A).mpr hA) ((length_printed_lt_iff B).mpr hB),
    printed_inj, length_printed]

/-! ## The question and the answer -/

/-- Neither `sprintf` writes past its array, and the answer is whether the text
    of `A` ends with the text of `B`. -/
def DecidesSuffix (A B : Int32) (s1 s2 : Buffer 10) : Prop :=
  ∃ r, checkSuffix A B s1 s2 = some r ∧
    (r = true ↔ Decimal.text B.toInt <:+ Decimal.text A.toInt)

/-- `B` has no minus sign and is what the last digits of `A` denote, as many as it has. -/
def LastDigits (A B : Int32) : Prop :=
  0 ≤ B.toInt ∧ A.toInt.natAbs % 10 ^ (Decimal.text B.toInt).length = B.toInt.natAbs

theorem suffix_iff (A B : Int32) :
    Decimal.text B.toInt <:+ Decimal.text A.toInt ↔ A = B ∨ LastDigits A B := by
  rw [Decimal.text_suffix_iff, Int32.toInt_inj, eq_comm]
  rfl

/-- For all numbers and whatever the arrays held: the suffix is decided exactly if
    both texts fit, and equal numbers found equal bytes behind their texts, and
    different ones are not such that the one is made of the last digits of the other. -/
theorem decides_suffix_iff (A B : Int32) (s1 s2 : Buffer 10) :
    DecidesSuffix A B s1 s2 ↔
      Fits A ∧ Fits B ∧
      (A = B → ∀ j : Fin 10, (Decimal.text A.toInt).length < j → s1 j = s2 j) ∧
      (A ≠ B → ¬ LastDigits A B) := by
  constructor
  · rintro ⟨r, hr, hdecides⟩
    obtain ⟨hA, hB⟩ := fits_of_checkSuffix hr
    obtain ⟨r', hr', hsame⟩ := checkSuffix_of_fits hA hB s1 s2
    obtain rfl : r = r' := Option.some.inj (hr.symm.trans hr')
    rw [suffix_iff] at hdecides
    refine ⟨hA, hB, fun heq => ?_, fun hne hlast => ?_⟩
    · exact (hsame.mp (hdecides.mpr (.inl heq))).2
    · exact hne (hsame.mp (hdecides.mpr (.inr hlast))).1
  · rintro ⟨hA, hB, hrest, hlast⟩
    obtain ⟨r, hr, hsame⟩ := checkSuffix_of_fits hA hB s1 s2
    refine ⟨r, hr, ?_⟩
    rw [hsame, suffix_iff]
    by_cases heq : A = B
    · exact iff_of_true ⟨heq, hrest heq⟩ (.inl heq)
    · exact iff_of_false (fun h => heq h.1) (not_or.mpr ⟨heq, hlast heq⟩)

/-- The text 123 ends with 23, but the arrays differ. -/
theorem suffix_not_found : ¬ ∀ (A B : Int32) (s1 s2 : Buffer 10), DecidesSuffix A B s1 s2 := by
  intro h
  obtain ⟨r, hr, hdecides⟩ := h 123 23 (fun _ => 0) (fun _ => 0)
  obtain rfl : r = false := Option.some.inj (hr.symm.trans (by decide +kernel))
  exact Bool.false_ne_true (hdecides.mpr (by decide +kernel))

end Firmware
