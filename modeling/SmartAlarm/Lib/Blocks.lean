-- SUMMARY: Stretches of one letter in a list: a resettable counter stays below a bound exactly when no stretch is that long.
import Mathlib.Tactic.TypeStar

/-!
# Stretches of one letter

A counter that one letter advances and every other letter resets. It stays
below a bound exactly when the list has no stretch of that letter as long as the
bound.
-/

namespace Blocks

variable {α : Type*} [DecidableEq α]

/-- Reading `l` with the counter at `k`, the counter of consecutive `x` stays below `n`. -/
def Below (x : α) (n : Nat) : Nat → List α → Prop
  | _, []     => True
  | k, a :: l => if a = x then k + 1 < n ∧ Below x n (k + 1) l else Below x n 0 l

variable {x : α} {n : Nat}

omit [DecidableEq α] in
private theorem not_infix_replicate {k : Nat} (hk : k < n) :
    ¬ List.replicate n x <:+: List.replicate k x := by
  intro h
  have hlen := h.length_le
  simp only [List.length_replicate] at hlen
  omega

omit [DecidableEq α] in
/-- A stretch of `x` cannot reach across another letter. -/
private theorem infix_across_iff {k : Nat} {a : α} {l : List α} (hk : k < n) (ha : a ≠ x) :
    List.replicate n x <:+: List.replicate k x ++ a :: l ↔ List.replicate n x <:+: l := by
  constructor
  · intro h
    have hnotin : a ∉ List.replicate n x := fun hmem => ha (List.eq_of_mem_replicate hmem)
    rcases List.infix_append_iff.mp h with h | h | ⟨l₁, l₂, hsplit, hsuf, hpre⟩
    · exact absurd h (not_infix_replicate hk)
    · rcases List.infix_cons_iff.mp h with h | h
      · rcases List.prefix_cons_iff.mp h with h | ⟨t, h, -⟩
        · rw [h]
          exact List.nil_infix
        · exact absurd (h ▸ List.mem_cons_self) hnotin
      · exact h
    · rcases List.prefix_cons_iff.mp hpre with rfl | ⟨t, rfl, -⟩
      · rw [List.append_nil] at hsplit
        exact absurd (hsplit ▸ hsuf.isInfix) (not_infix_replicate hk)
      · exact absurd (hsplit ▸ List.mem_append_right l₁ List.mem_cons_self) hnotin
  · intro h
    exact List.infix_append_of_infix_right (List.infix_cons h)

theorem below_iff {k : Nat} {l : List α} (hk : k < n) :
    Below x n k l ↔ ¬ List.replicate n x <:+: List.replicate k x ++ l := by
  induction l generalizing k with
  | nil =>
    simp only [Below, List.append_nil, true_iff]
    exact not_infix_replicate hk
  | cons a l ih =>
    by_cases ha : a = x
    · subst ha
      have hshift : List.replicate k a ++ a :: l = List.replicate (k + 1) a ++ l := by
        rw [List.replicate_succ', List.append_assoc, List.singleton_append]
      simp only [Below, if_true, hshift]
      by_cases hn : k + 1 < n
      · rw [ih hn]
        simp only [hn, true_and]
      · obtain rfl : k + 1 = n := by omega
        have hfound := (List.prefix_append (List.replicate (k + 1) a) l).isInfix
        simp only [Nat.lt_irrefl, false_and, hfound, not_true_eq_false]
    · simp only [Below, ha, if_false]
      rw [ih (by omega), infix_across_iff hk ha]
      simp

/-- Starting from 0, the counter stays below `n` exactly when there is no stretch of `n`. -/
theorem below_zero_iff {l : List α} (hn : 0 < n) :
    Below x n 0 l ↔ ¬ List.replicate n x <:+: l := by
  simpa using below_iff (x := x) (l := l) hn

end Blocks
