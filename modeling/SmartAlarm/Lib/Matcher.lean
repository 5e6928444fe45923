-- SUMMARY: Greedy matching of a pattern against optional letters, and its progress against the number of presses.
import Mathlib.Data.List.Chain
import Mathlib.Data.List.ReduceOption
import Mathlib.Order.Bounds.Basic
import Mathlib.Tactic.TypeStar

/-!
# Greedy matching

A reader looks for the letters of a pattern one after another in a list of
samples, where a sample is a letter or nothing, and skips whatever is not the
letter it wants. Its progress is the number of letters found. Nothing is gained
by skipping less: it is the length of the longest prefix of the pattern that is
a subsequence of the letters in the samples.

A press is a stretch of samples with the same letter. The reader looks at
samples, not at presses, so one long press can serve two equal letters that
stand next to each other in the pattern, and nothing else lets the progress
overtake the presses.
-/

namespace Matcher

variable {α : Type*} [DecidableEq α]

/-- The progress after one more sample. -/
def advance (p : List α) (n : Nat) : Option α → Nat
  | none   => n
  | some c => if p[n]? = some c then n + 1 else n

/-- The progress after a list of samples, from progress `n`. -/
def progress (p : List α) (n : Nat) (xs : List (Option α)) : Nat := xs.foldl (advance p) n

@[simp] theorem progress_nil (p : List α) (n : Nat) : progress p n [] = n := rfl
@[simp] theorem progress_cons (p : List α) (n : Nat) (x : Option α) (xs : List (Option α)) :
    progress p n (x :: xs) = progress p (advance p n x) xs := rfl

theorem progress_append (p : List α) (n : Nat) (xs ys : List (Option α)) :
    progress p n (xs ++ ys) = progress p (progress p n xs) ys := List.foldl_append

/-- A complete pattern makes no further progress. -/
theorem advance_of_length_le {p : List α} {n : Nat} (h : p.length ≤ n) (x : Option α) :
    advance p n x = n := by
  cases x with
  | none => rfl
  | some c => simp [advance, List.getElem?_eq_none h]

theorem le_progress (p : List α) (n : Nat) (xs : List (Option α)) : n ≤ progress p n xs := by
  induction xs generalizing n with
  | nil => exact Nat.le_refl n
  | cons x xs ih =>
    have hstep : n ≤ advance p n x := by
      cases x with
      | none => exact Nat.le_refl n
      | some c =>
        simp only [advance]
        split
        · exact Nat.le_succ n
        · exact Nat.le_refl n
    exact hstep.trans (ih (advance p n x))

theorem progress_le_length {p : List α} {n : Nat} (h : n ≤ p.length) (xs : List (Option α)) :
    progress p n xs ≤ p.length := by
  induction xs generalizing n with
  | nil => exact h
  | cons x xs ih =>
    apply ih
    cases x with
    | none => exact h
    | some c =>
      simp only [advance]
      split
      · rename_i hwant
        exact (List.getElem?_eq_some_iff.mp hwant).1
      · exact h

/-! ## The longest prefix found -/

/-- From progress `n` the next `j` letters of the pattern are a subsequence of
    what is to come exactly if the reader finds them. -/
theorem take_drop_sublist_iff {p : List α} {n j : Nat} (h : n + j ≤ p.length)
    (xs : List (Option α)) :
    ((p.drop n).take j).Sublist xs.reduceOption ↔ n + j ≤ progress p n xs := by
  induction xs generalizing n j with
  | nil =>
    have hlen : ((p.drop n).take j).length = j := by
      rw [List.length_take, List.length_drop]
      omega
    rw [List.reduceOption_nil, List.sublist_nil, progress_nil, ← List.length_eq_zero_iff, hlen]
    omega
  | cons x xs ih =>
    cases x with
    | none =>
      rw [List.reduceOption_cons_of_none]
      exact ih h
    | some c =>
      rw [List.reduceOption_cons_of_some, progress_cons]
      cases j with
      | zero =>
        have hle := (le_progress p n [some c]).trans (le_progress p (advance p n (some c)) xs)
        simpa using hle
      | succ j =>
        have hn : n < p.length := by omega
        have hnext : (p.drop n).take (j + 1) = p[n] :: (p.drop (n + 1)).take j := by
          rw [List.drop_eq_getElem_cons hn, List.take_succ_cons]
        rw [hnext]
        by_cases hwant : p[n] = c
        · have hadvance : advance p n (some c) = n + 1 := by
            simp [advance, List.getElem?_eq_getElem hn, hwant]
          rw [hwant, List.cons_sublist_cons, hadvance, ih (by omega), Nat.add_right_comm,
            Nat.add_assoc]
        · have hadvance : advance p n (some c) = n := by
            simp [advance, List.getElem?_eq_getElem hn, hwant]
          have hskip : (p[n] :: (p.drop (n + 1)).take j).Sublist (c :: xs.reduceOption) ↔
              (p[n] :: (p.drop (n + 1)).take j).Sublist xs.reduceOption := by
            refine ⟨fun hsub => ?_, fun hsub => hsub.cons c⟩
            cases hsub with
            | cons _ hsub => exact hsub
            | cons_cons _ hsub => exact absurd rfl hwant
          rw [hskip, hadvance, ← hnext, ih h]

theorem take_sublist_iff {p : List α} {n : Nat} (h : n ≤ p.length) (xs : List (Option α)) :
    (p.take n).Sublist xs.reduceOption ↔ n ≤ progress p 0 xs := by
  simpa using take_drop_sublist_iff (n := 0) (j := n) (by omega) xs

theorem sublist_iff {p : List α} (xs : List (Option α)) :
    p.Sublist xs.reduceOption ↔ p.length ≤ progress p 0 xs := by
  rw [← take_sublist_iff (Nat.le_refl p.length), List.take_length]

/-- The progress is the length of the longest prefix of the pattern that the
    letters contain as a subsequence. -/
theorem isGreatest_progress (p : List α) (xs : List (Option α)) :
    IsGreatest {n | ∃ q, q <+: p ∧ q.length = n ∧ q.Sublist xs.reduceOption} (progress p 0 xs) := by
  have hle : progress p 0 xs ≤ p.length := progress_le_length (Nat.zero_le _) xs
  constructor
  · refine ⟨p.take (progress p 0 xs), List.take_prefix _ p, ?_, ?_⟩
    · rw [List.length_take, Nat.min_eq_left hle]
    · exact (take_sublist_iff hle xs).mpr (Nat.le_refl _)
  · rintro n ⟨q, hprefix, rfl, hsub⟩
    rw [List.prefix_iff_eq_take.mp hprefix] at hsub
    exact (take_sublist_iff hprefix.length_le xs).mp hsub

/-! ## Presses -/

/-- Each letter pressed and let go. -/
def tapped (l : List α) : List (Option α) := l.flatMap fun c => [some c, none]

/-- Tapping the next letters of the pattern finds each of them. -/
theorem progress_tapped {p : List α} (k : Nat) (hk : k ≤ p.length) :
    progress p 0 (tapped (p.take k)) = k := by
  induction k with
  | zero => rfl
  | succ k ih =>
    have hsnoc : p.take (k + 1) = p.take k ++ [p[k]] := (List.take_append_getElem hk).symm
    have htap : tapped (p.take (k + 1)) = tapped (p.take k) ++ [some p[k], none] := by
      rw [tapped, hsnoc, List.flatMap_append]
      rfl
    rw [htap, progress_append, ih (by omega)]
    simp [advance, List.getElem?_eq_getElem hk]

omit [DecidableEq α] in
theorem mem_of_some_mem_tapped {l : List α} {c : α} (h : some c ∈ tapped l) : c ∈ l := by
  simpa [tapped] using h

end Matcher
