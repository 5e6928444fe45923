-- SUMMARY: Terminated strings in arrays of fixed size: storing one over what the array held, and when two such arrays agree.
import Mathlib.Data.List.Basic
import Mathlib.Data.List.GetD

/-!
# Terminated strings

An array of fixed size that holds a string and, behind it, an element that marks
the end. What is behind the mark is what the array held before. A reader that
goes by the mark sees the string only; one that goes by the size of the array
sees the rest as well.
-/

namespace Terminated

variable {α : Type*} {n : Nat}

/-- The array `s` after the string `cs` and the mark `z` have been written to its front. -/
def store (z : α) (s : Fin n → α) (cs : List α) : Fin n → α :=
  fun j => (cs ++ [z]).getD j (s j)

variable {z : α} {s t : Fin n → α} {cs ds : List α} {j : Fin n}

theorem store_of_lt (h : j < cs.length) : store z s cs j = cs[j.val] := by
  rw [store, List.getD_append _ _ _ _ h, List.getD_eq_getElem _ _ h]

theorem store_of_eq (h : j = cs.length) : store z s cs j = z := by
  rw [store, h, List.getD_append_right _ _ _ _ (Nat.le_refl _), Nat.sub_self]
  rfl

theorem store_of_gt (h : cs.length < j) : store z s cs j = s j := by
  rw [store, List.getD_eq_default]
  rw [List.length_append]
  exact h

/-- A mark does not occur in a string, so it tells its length. -/
theorem length_le_of_store_eq (hds : z ∉ ds) (hc : cs.length < n)
    (h : store z s cs = store z t ds) : ds.length ≤ cs.length := by
  by_contra hlt
  have hmark := congrFun h ⟨cs.length, hc⟩
  rw [store_of_eq rfl, store_of_lt (Nat.not_le.mp hlt)] at hmark
  exact hds (hmark ▸ List.getElem_mem _)

/-- Two arrays agree exactly if their strings do and what is behind them does. -/
theorem store_eq_store_iff (hcs : z ∉ cs) (hds : z ∉ ds) (hc : cs.length < n) (hd : ds.length < n) :
    store z s cs = store z t ds ↔ cs = ds ∧ ∀ j : Fin n, cs.length < j → s j = t j := by
  constructor
  · intro h
    have hlen : cs.length = ds.length :=
      Nat.le_antisymm (length_le_of_store_eq hcs hd h.symm) (length_le_of_store_eq hds hc h)
    refine ⟨List.ext_getElem hlen fun i hi hi' => ?_, fun j hj => ?_⟩
    · have hat := congrFun h ⟨i, Nat.lt_trans hi hc⟩
      rwa [store_of_lt hi, store_of_lt hi'] at hat
    · have hat := congrFun h j
      rwa [store_of_gt hj, store_of_gt (hlen ▸ hj)] at hat
  · rintro ⟨rfl, hrest⟩
    funext j
    rcases Nat.lt_trichotomy j cs.length with hj | hj | hj
    · rw [store_of_lt hj, store_of_lt hj]
    · rw [store_of_eq hj, store_of_eq hj]
    · rw [store_of_gt hj, store_of_gt hj, hrest j hj]

end Terminated
