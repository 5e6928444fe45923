-- SUMMARY: Lists of signed values in which the sign does not flip from one value to the next.
import Mathlib.Algebra.Order.Ring.Defs
import Mathlib.Algebra.Order.Group.Abs
import Mathlib.Data.List.Chain
import Mathlib.Tactic.Linarith

/-!
# Sign reversals

A signed value sets something going one way or the other, and 0 stops it. If no
two neighbours in a list of such values have opposite signs, then between any two
values of opposite signs there is a 0.
-/

namespace Reversals

variable {α : Type*} [Ring α] [LinearOrder α]

/-- No value has the opposite sign of the one before it. -/
def Smooth (l : List α) : Prop := l.IsChain fun u v => 0 ≤ u * v

/-- One more value, where the list that is empty counts as stopped. -/
theorem smooth_concat {l : List α} {v : α} :
    Smooth (l ++ [v]) ↔ Smooth l ∧ 0 ≤ l.getLastD 0 * v := by
  rcases List.eq_nil_or_concat' l with rfl | ⟨l, u, rfl⟩
  · simp [Smooth]
  · rw [Smooth, List.isChain_append, List.getLastD_concat]
    simp [Smooth]

variable [IsStrictOrderedRing α]

theorem mul_neg_of_mul_nonneg {u w v : α} (h : 0 ≤ u * w) (hw : w ≠ 0) (hflip : u * v < 0) :
    w * v < 0 := by
  rcases mul_neg_iff.mp hflip with ⟨hu, hv⟩ | ⟨hu, hv⟩
  · have hpos : 0 < w := lt_of_le_of_ne (nonneg_of_mul_nonneg_right h hu) hw.symm
    exact mul_neg_of_pos_of_neg hpos hv
  · have hneg : w < 0 := by
      by_contra hle
      have hpos : 0 < w := lt_of_le_of_ne (not_lt.mp hle) hw.symm
      exact absurd h (not_le.mpr (mul_neg_of_neg_of_pos hu hpos))
    exact mul_neg_of_neg_of_pos hneg hv

/-- Between two values of opposite signs there is a 0. -/
theorem zero_mem_between {pre mid post : List α} {u v : α}
    (h : Smooth (pre ++ u :: mid ++ v :: post)) (hflip : u * v < 0) : 0 ∈ mid := by
  rw [List.append_assoc] at h
  have hchain : Smooth (u :: (mid ++ v :: post)) := h.right_of_append
  clear h
  induction mid generalizing u with
  | nil => exact absurd (List.rel_of_isChain_cons_cons hchain) (not_le.mpr hflip)
  | cons w mid ih =>
    obtain ⟨huw, hrest⟩ := List.isChain_cons_cons.mp hchain
    by_cases hw : w = 0
    · exact hw ▸ List.mem_cons_self
    · exact List.mem_cons_of_mem _ (ih (mul_neg_of_mul_nonneg huw hw hflip) hrest)

end Reversals
