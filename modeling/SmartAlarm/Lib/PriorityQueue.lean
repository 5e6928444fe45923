-- SUMMARY: Queues ordered by priority, first come first served among equals.
import Mathlib.Data.List.TakeWhile
import Mathlib.Order.Lattice

/-!
# Priority queues

An entry is put behind all entries of at least its own priority. So the queue is
ordered, and no entry is ever overtaken by one of the same priority.
-/

namespace PriorityQueue

variable {α κ : Type*} [LinearOrder κ] {prio prio' : α → κ} {x y : α} {l r : List α}

/-- The entries that go before an entry of priority `p`. -/
def before (prio : α → κ) (p : κ) : α → Bool := fun y => p ≤ prio y

def enqueue (prio : α → κ) (x : α) (l : List α) : List α :=
  l.takeWhile (before prio (prio x)) ++ x :: l.dropWhile (before prio (prio x))

/-- Highest priority first. -/
def Ordered (prio : α → κ) (l : List α) : Prop := l.Pairwise fun a b => prio b ≤ prio a

@[simp] theorem enqueue_nil : enqueue prio x [] = [x] := rfl

theorem enqueue_perm (prio : α → κ) (x : α) (l : List α) : (enqueue prio x l).Perm (x :: l) := by
  refine List.perm_middle.trans (List.Perm.cons x ?_)
  rw [List.takeWhile_append_dropWhile]

@[simp] theorem mem_enqueue : y ∈ enqueue prio x l ↔ y = x ∨ y ∈ l := by
  rw [(enqueue_perm prio x l).mem_iff, List.mem_cons]

/-- An entry goes between the last that is not below it and the first that is. -/
theorem enqueue_split (prio : α → κ) (x : α) (l : List α) :
    ∃ before after, l = before ++ after ∧ enqueue prio x l = before ++ x :: after ∧
      (∀ y ∈ before, prio x ≤ prio y) ∧ ∀ y ∈ after.head?, prio y < prio x := by
  refine ⟨_, _, List.takeWhile_append_dropWhile.symm, rfl, fun y hy => ?_, fun y hy => ?_⟩
  · have hgo : before prio (prio x) y = true := List.mem_takeWhile_imp hy
    exact of_decide_eq_true hgo
  · have hstop := List.head?_dropWhile_not (before prio (prio x)) l
    rw [Option.mem_def.mp hy] at hstop
    simpa [before] using hstop

/-- An entry goes behind a part in which no entry is below it. -/
theorem enqueue_append (h : ∀ y ∈ l, prio x ≤ prio y) :
    enqueue prio x (l ++ r) = l ++ enqueue prio x r := by
  have hall : ∀ y ∈ l, before prio (prio x) y = true := fun y hy => decide_eq_true (h y hy)
  rw [enqueue, List.takeWhile_append_of_pos hall, List.dropWhile_append_of_pos hall,
    List.append_assoc]
  rfl

/-- An entry goes before a part whose first entry is below it. -/
theorem enqueue_cons_of_lt (h : prio y < prio x) : enqueue prio x (y :: l) = x :: y :: l := by
  simp [enqueue, before, h.not_ge]

theorem Ordered.enqueue (h : Ordered prio l) (x : α) : Ordered prio (enqueue prio x l) := by
  induction l with
  | nil => exact List.pairwise_singleton _ _
  | cons y l ih =>
    obtain ⟨hy, hl⟩ := List.pairwise_cons.mp h
    by_cases hxy : prio x ≤ prio y
    · have hcons : PriorityQueue.enqueue prio x (y :: l) = y :: PriorityQueue.enqueue prio x l :=
        enqueue_append (l := [y]) (by simpa using hxy)
      rw [hcons]
      refine List.pairwise_cons.mpr ⟨fun z hz => ?_, ih hl⟩
      rcases mem_enqueue.mp hz with rfl | hz
      · exact hxy
      · exact hy z hz
    · have hlt : prio y < prio x := not_le.mp hxy
      rw [enqueue_cons_of_lt hlt]
      refine List.pairwise_cons.mpr ⟨fun z hz => ?_, h⟩
      rcases List.mem_cons.mp hz with rfl | hz
      · exact hlt.le
      · exact (hy z hz).trans hlt.le

theorem ordered_cons : Ordered prio (y :: l) ↔ (∀ z ∈ l, prio z ≤ prio y) ∧ Ordered prio l :=
  List.pairwise_cons

theorem Ordered.congr (h : Ordered prio l) (heq : ∀ y ∈ l, prio' y = prio y) : Ordered prio' l :=
  h.imp_of_mem fun ha hb hle => by rwa [heq _ ha, heq _ hb]

theorem Ordered.sublist {l' : List α} (h : Ordered prio l) (hsub : l'.Sublist l) : Ordered prio l' :=
  List.Pairwise.sublist hsub h

/-- The part of an ordered queue before an entry is at least as high as the entry. -/
theorem Ordered.le_of_append (h : Ordered prio (l ++ y :: r)) : ∀ z ∈ l, prio y ≤ prio z :=
  fun z hz => (List.pairwise_append.mp h).2.2 z hz y List.mem_cons_self

/-- No entry is overtaken by one that is not above it. -/
theorem Ordered.enqueue_behind (h : Ordered prio (l ++ y :: r)) (hxy : prio x ≤ prio y) :
    PriorityQueue.enqueue prio x (l ++ y :: r) = l ++ y :: PriorityQueue.enqueue prio x r := by
  have hcons : PriorityQueue.enqueue prio x (y :: r) = y :: PriorityQueue.enqueue prio x r :=
    enqueue_append (l := [y]) (by simpa using hxy)
  rw [enqueue_append fun z hz => hxy.trans (h.le_of_append z hz), hcons]

/-- An entry that is above another goes before it. -/
theorem enqueue_before (h : prio y < prio x) :
    PriorityQueue.enqueue prio x (l ++ y :: r) = PriorityQueue.enqueue prio x l ++ y :: r := by
  induction l with
  | nil => exact enqueue_cons_of_lt h
  | cons z l ih =>
    by_cases hxz : prio x ≤ prio z
    · have hcons (l : List α) : PriorityQueue.enqueue prio x (z :: l) = z :: PriorityQueue.enqueue prio x l :=
        enqueue_append (l := [z]) (by simpa using hxz)
      rw [List.cons_append, hcons, hcons, ih, List.cons_append]
    · rw [List.cons_append, enqueue_cons_of_lt (not_le.mp hxz), enqueue_cons_of_lt (not_le.mp hxz)]
      rfl

end PriorityQueue
