-- SUMMARY: What the functions of `rt_List.c` do to the lists that the kernel's memory holds.
import SmartAlarm.Lib.PriorityQueue
import SmartAlarm.Rtos.List
import Mathlib.Data.List.Perm.Subperm

/-!
# Lists in memory

The ready list and the lists of the semaphores share their link pointer, so they
are one family of lists, and a task is in one of them at most. Putting a task
into a list and taking it out again are each shown once for the family. The
functions of `rt_List.c` are then these two, at the place that they choose.
-/

namespace Rtx

open Function Linked

/-- The blocks that are tasks. -/
def pool (os_maxtaskrun : Nat) : List Ptr := .os_idle_TCB :: (List.range os_maxtaskrun).map .tcb

/-- The header of a list: of the ready list, or of the list of a semaphore. -/
def head : Option Nat → Ptr
  | none   => .os_rdy
  | some n => .scb n

theorem head_injective : Injective head := by
  intro i j h
  cases i <;> cases j <;> first | rfl | exact congrArg some (Ptr.scb.inj h) | cases h

theorem head_not_mem_pool {max : Nat} (i : Option Nat) : head i ∉ pool max := by
  cases i <;> simp [head, pool]

theorem os_dly_not_mem_pool {max : Nat} : .os_dly ∉ pool max := by simp [pool]

theorem length_pool (max : Nat) : (pool max).length = max + 1 := by simp [pool]

/-- A list of different tasks is shorter than a loop may run. -/
theorem length_lt_passes {max : Nat} {l : List Ptr} (hnodup : l.Nodup) (htasks : ∀ x ∈ l, x ∈ pool max) :
    l.length < max + 2 := by
  have hle := (List.subperm_of_subset hnodup htasks).length_le
  rw [length_pool] at hle
  omega

/-! ## The queues -/

/-- The memory holds the queues `q`. -/
structure Queues (max : Nat) (lnk rlnk : Ptr → Option Ptr) (q : Option Nat → List Ptr) : Prop where
  chain : ∀ i, Chain lnk (head i) (q i)
  back : ∀ n, Back rlnk (head (some n)) (q (some n))
  unlinked : ∀ x ∈ pool max, (∀ n, x ∉ q (some n)) → rlnk x = none
  nodup : ∀ i, (q i).Nodup
  apart : ∀ i j x, x ∈ q i → x ∈ q j → i = j
  tasks : ∀ i, ∀ x ∈ q i, x ∈ pool max

section

variable {max : Nat} {lnk lnk' rlnk rlnk' : Ptr → Option Ptr} {q : Option Nat → List Ptr}
  {i : Option Nat} {x : Ptr} {l r : List Ptr}

theorem Queues.head_not_mem (h : Queues max lnk rlnk q) (i j : Option Nat) : head i ∉ q j :=
  fun hmem => head_not_mem_pool i (h.tasks j _ hmem)

theorem Queues.nodup_cons (h : Queues max lnk rlnk q) (i : Option Nat) : (head i :: q i).Nodup :=
  List.nodup_cons.mpr ⟨h.head_not_mem i i, h.nodup i⟩

/-- A record of one list is none of another. -/
theorem Queues.ne_of_mem (h : Queues max lnk rlnk q) {i j : Option Nat} (hij : i ≠ j) {x y : Ptr}
    (hx : x ∈ head i :: q i) (hy : y ∈ head j :: q j) : x ≠ y := by
  rintro rfl
  rcases List.mem_cons.mp hx with rfl | hx
  · rcases List.mem_cons.mp hy with heq | hy
    · exact hij (head_injective heq)
    · exact h.head_not_mem i j hy
  · rcases List.mem_cons.mp hy with rfl | hy
    · exact h.head_not_mem j i hx
    · exact hij (h.apart i j x hx hy)

/-- A task goes into a queue, at any place. -/
theorem Queues.insert (h : Queues max lnk rlnk q) (hq : q i = l ++ r) (hx : x ∈ pool max)
    (hout : ∀ j, x ∉ q j)
    (hrlnk : rlnk' = if i.isSome then
        update (setAt rlnk r.head? (some x)) x (some (l.getLastD (head i)))
      else update rlnk x none) :
    Queues max (insertAfter lnk (l.getLastD (head i)) x) rlnk' (update q i (l ++ x :: r)) := by
  have hlast : l.getLastD (head i) ∈ head i :: q i := by
    rw [hq]
    exact List.mem_append_left r (getLastD_mem l (head i))
  have hhead (j : Option Nat) : x ∉ head j :: q j := by
    rw [List.mem_cons, not_or]
    exact ⟨fun heq => head_not_mem_pool j (heq ▸ hx), hout j⟩
  have hmem (j : Option Nat) (y : Ptr) (hy : y ∈ update q i (l ++ x :: r) j) :
      y ∈ q j ∨ y = x ∧ j = i := by
    by_cases hj : j = i
    · subst hj
      rw [update_self] at hy
      rw [hq]
      simp only [List.mem_append, List.mem_cons] at hy ⊢
      tauto
    · rw [update_of_ne hj] at hy
      exact .inl hy
  refine ⟨fun j => ?_, fun n => ?_, fun y hy hnone => ?_, fun j => ?_, fun j j' y hj hj' => ?_,
    fun j y hy => ?_⟩
  · by_cases hj : j = i
    · subst hj
      rw [update_self]
      have hchain := hq ▸ h.chain j
      exact hchain.insertAfter (hq ▸ h.nodup_cons j) (hq ▸ hhead j)
    · rw [update_of_ne hj]
      refine (h.chain j).congr fun y hy => ?_
      have hyx : y ≠ x := fun heq => hhead j (heq ▸ hy)
      rw [insertAfter, update_of_ne (h.ne_of_mem hj hy hlast), update_of_ne hyx]
  · by_cases hi : some n = i
    · subst hi
      have hback := hq ▸ h.back n
      rw [update_self, hrlnk]
      exact hback.insert (hq ▸ h.nodup _) (hq ▸ hout _)
    · rw [update_of_ne hi, hrlnk]
      refine (h.back n).congr fun y hy => ?_
      have hyx : y ≠ x := fun heq => hout _ (heq ▸ hy)
      split
      · rw [update_of_ne hyx]
        refine setAt_of_ne (fun heq => hi ?_) _
        have hyr : y ∈ q i := by
          rw [hq]
          exact List.mem_append_right l (List.mem_of_mem_head? (Option.mem_def.mpr heq))
        exact h.apart _ _ y hy hyr
      · exact update_of_ne hyx _ _
  · rw [hrlnk]
    by_cases hyx : y = x
    · subst hyx
      cases i with
      | none => exact update_self _ _ _
      | some n =>
        exact absurd (hnone n) (by rw [update_self]; simp)
    · have hyq (n : Nat) : y ∉ q (some n) := by
        intro hin
        refine hnone n ?_
        by_cases hi : some n = i
        · subst hi
          rw [update_self]
          rw [hq] at hin
          simp only [List.mem_append, List.mem_cons] at hin ⊢
          tauto
        · rwa [update_of_ne hi]
      have hlink := h.unlinked y hy hyq
      cases i with
      | none => exact (update_of_ne hyx _ _).trans hlink
      | some n =>
        refine (update_of_ne hyx _ _).trans ((setAt_of_ne (fun heq => hyq n ?_) _).trans hlink)
        rw [hq]
        exact List.mem_append_right l (List.mem_of_mem_head? (Option.mem_def.mpr heq))
  · by_cases hj : j = i
    · subst hj
      rw [update_self]
      have hnodup := hq ▸ h.nodup j
      exact List.nodup_middle.mpr (List.nodup_cons.mpr ⟨hq ▸ hout j, hnodup⟩)
    · rw [update_of_ne hj]
      exact h.nodup j
  · rcases hmem j y hj with hin | ⟨rfl, rfl⟩
    · rcases hmem j' y hj' with hin' | ⟨rfl, rfl⟩
      · exact h.apart j j' y hin hin'
      · exact absurd hin (hout j)
    · rcases hmem j' _ hj' with hin' | ⟨-, rfl⟩
      · exact absurd hin' (hout j')
      · rfl
  · rcases hmem j y hy with hin | ⟨rfl, -⟩
    · exact h.tasks j y hin
    · exact hx

/-- A task is taken out of a queue. Its own link pointer is of no account. -/
theorem Queues.remove (h : Queues max lnk rlnk q) (hq : q i = l ++ x :: r)
    (hlnk : ∀ y, y ≠ x → lnk' y = removeAfter lnk (l.getLastD (head i)) x y)
    (hrlnk : rlnk' = if i.isSome then
        update (setAt rlnk r.head? (some (l.getLastD (head i)))) x none
      else rlnk) :
    Queues max lnk' rlnk' (update q i (l ++ r)) := by
  have hxq : x ∈ q i := by
    rw [hq]
    simp
  have hlast : l.getLastD (head i) ∈ head i :: q i := by
    rw [hq]
    exact List.mem_append_left _ (getLastD_mem l (head i))
  have hsub (j : Option Nat) (y : Ptr) (hy : y ∈ update q i (l ++ r) j) : y ∈ q j := by
    by_cases hj : j = i
    · subst hj
      rw [update_self] at hy
      rw [hq]
      simp only [List.mem_append, List.mem_cons] at hy ⊢
      tauto
    · rwa [update_of_ne hj] at hy
  have hnodup := hq ▸ h.nodup i
  have hxlr : x ∉ l ++ r := (List.nodup_cons.mp (List.nodup_middle.mp hnodup)).1
  refine ⟨fun j => ?_, fun n => ?_, fun y hy hnone => ?_, fun j => ?_, fun j j' y hj hj' => ?_,
    fun j y hy => h.tasks j y (hsub j y hy)⟩
  · by_cases hj : j = i
    · subst hj
      rw [update_self]
      have hchain := hq ▸ h.chain j
      refine (hchain.removeAfter (hq ▸ h.nodup_cons j)).congr fun y hy => hlnk y ?_
      rintro rfl
      rcases List.mem_cons.mp hy with heq | hy
      · exact h.head_not_mem j j (heq ▸ hxq)
      · exact hxlr hy
    · rw [update_of_ne hj]
      refine (h.chain j).congr fun y hy => ?_
      have hyx : y ≠ x := h.ne_of_mem hj hy (List.mem_cons_of_mem _ hxq)
      rw [hlnk y hyx, removeAfter, update_of_ne (h.ne_of_mem hj hy hlast)]
  · by_cases hi : some n = i
    · subst hi
      have hback := hq ▸ h.back n
      rw [update_self, hrlnk]
      exact (hback.remove hnodup).update_of_notMem hxlr _
    · rw [update_of_ne hi, hrlnk]
      refine (h.back n).congr fun y hy => ?_
      have hyi (hmem : y ∈ q i) : False := hi (h.apart _ _ y hy hmem)
      split
      · have hyx : y ≠ x := fun heq => hyi (heq ▸ hxq)
        rw [update_of_ne hyx]
        refine setAt_of_ne (fun heq => hyi ?_) _
        rw [hq]
        exact List.mem_append_right l
          (List.mem_cons_of_mem x (List.mem_of_mem_head? (Option.mem_def.mpr heq)))
      · rfl
  · rw [hrlnk]
    by_cases hyx : y = x
    · subst hyx
      cases i with
      | none =>
        refine h.unlinked y hy fun n hmem => ?_
        cases h.apart _ _ y hmem hxq
      | some n => exact update_self _ _ _
    · have hyq (n : Nat) : y ∉ q (some n) := by
        intro hmem
        refine hnone n ?_
        by_cases hi : some n = i
        · subst hi
          rw [update_self]
          rw [hq] at hmem
          simp only [List.mem_append, List.mem_cons] at hmem ⊢
          tauto
        · rwa [update_of_ne hi]
      have hlink := h.unlinked y hy hyq
      cases i with
      | none => exact hlink
      | some n =>
        refine (update_of_ne hyx _ _).trans ((setAt_of_ne (fun heq => hyq n ?_) _).trans hlink)
        rw [hq]
        exact List.mem_append_right l
          (List.mem_cons_of_mem x (List.mem_of_mem_head? (Option.mem_def.mpr heq)))
  · by_cases hj : j = i
    · subst hj
      rw [update_self]
      exact (List.nodup_cons.mp (List.nodup_middle.mp hnodup)).2
    · rw [update_of_ne hj]
      exact h.nodup j
  · exact h.apart j j' y (hsub j y hj) (hsub j' y hj')

/-- The pointers of a task in no queue can be cleared. -/
theorem Queues.clear (h : Queues max lnk rlnk q) (hx : x ∈ pool max) (hout : ∀ j, x ∉ q j) :
    Queues max (update lnk x none) (update rlnk x none) q := by
  refine ⟨fun i => (h.chain i).update_of_notMem ?_ _, fun n => (h.back n).update_of_notMem (hout _) _,
    fun y hy hnone => ?_, h.nodup, h.apart, h.tasks⟩
  · rw [List.mem_cons, not_or]
    exact ⟨fun heq => head_not_mem_pool i (heq ▸ hx), hout i⟩
  · by_cases hyx : y = x
    · rw [hyx, update_self]
    · rw [update_of_ne hyx]
      exact h.unlinked y hy hnone

end

/-! ## Functions on queues -/

section

open PriorityQueue

variable {k : Kernel} {q : Option Nat → List Ptr} {i : Option Nat} {x : Ptr} {l : List Ptr}

/-- The kernel's memory holds the queues `q`. -/
structure HoldsQueues (k : Kernel) (q : Option Nat → List Ptr) : Prop where
  queues : Queues k.os_maxtaskrun k.p_lnk k.p_rlnk q
  cb_type : ∀ i, (k.cb_type (head i)).sem_mbx = i.isSome

/-- Only the link pointers of the queues may differ. -/
def Kernel.relink (k : Kernel) (lnk rlnk : Ptr → Option Ptr) : Kernel :=
  { k with p_lnk := lnk, p_rlnk := rlnk }

theorem HoldsQueues.relink (h : HoldsQueues k q) {lnk rlnk : Ptr → Option Ptr}
    {q' : Option Nat → List Ptr} (hq : Queues k.os_maxtaskrun lnk rlnk q') :
    HoldsQueues (k.relink lnk rlnk) q' := ⟨hq, h.cb_type⟩

/-- `rt_put_prio` -/
theorem HoldsQueues.put_prio (h : HoldsQueues k q) (hx : x ∈ pool k.os_maxtaskrun)
    (hout : ∀ j, x ∉ q j) :
    ∃ lnk rlnk, k.rt_put_prio (head i) x = some (k.relink lnk rlnk) ∧
      HoldsQueues (k.relink lnk rlnk) (update q i (enqueue k.prio x (q i))) := by
  have hwalk := (h.queues.chain i).walk (before k.prio (k.prio x))
    (length_lt_passes (h.queues.nodup i) (h.queues.tasks i))
  have hsplit : q i = (q i).takeWhile (before k.prio (k.prio x)) ++
      (q i).dropWhile (before k.prio (k.prio x)) := List.takeWhile_append_dropWhile.symm
  have hnext : k.p_lnk (((q i).takeWhile (before k.prio (k.prio x))).getLastD (head i)) =
      ((q i).dropWhile (before k.prio (k.prio x))).head? :=
    Chain.next_getLastD (hsplit ▸ h.queues.chain i)
  refine ⟨_, _, ?_, h.relink (h.queues.insert hsplit hx hout rfl)⟩
  have hpasses : k.passes = k.os_maxtaskrun + 2 := rfl
  have hgo : (fun p_CB2 => decide (k.prio x ≤ k.prio p_CB2)) = before k.prio (k.prio x) := rfl
  rw [Kernel.rt_put_prio, hpasses, hgo, hwalk]
  simp only [Option.bind_eq_bind, Option.bind_some, Option.pure_def, hnext, h.cb_type i]
  rfl

/-- `rt_get_first` -/
theorem HoldsQueues.get_first (h : HoldsQueues k q) (hq : q i = x :: l) :
    ∃ lnk rlnk, k.rt_get_first (head i) = some (x, k.relink lnk rlnk) ∧
      HoldsQueues (k.relink lnk rlnk) (update q i l) := by
  have hchain := hq ▸ h.queues.chain i
  have hfirst : k.p_lnk (head i) = some x := hchain.1
  have hnext : k.p_lnk x = l.head? := Chain.next_getLastD (l := [x]) hchain
  have hempty : q i = [] ++ x :: l := hq
  cases i with
  | none =>
    have hlnk (y : Ptr) (hy : y ≠ x) : update (update k.p_lnk .os_rdy (k.p_lnk x)) x none y =
        removeAfter k.p_lnk .os_rdy x y := update_of_ne hy _ _
    have hremoved := h.queues.remove hempty hlnk rfl
    refine ⟨_, _, ?_, h.relink hremoved⟩
    · have htype : (k.cb_type .os_rdy).sem_mbx = false := h.cb_type none
      rw [Kernel.rt_get_first, show k.p_lnk (head none) = some x from hfirst]
      simp only [head, Option.bind_eq_bind, Option.bind_some, Option.pure_def, htype,
        Bool.false_eq_true, if_false]
      rfl
  | some n =>
    have hlnk (y : Ptr) (hy : y ≠ x) : (if k.p_lnk x = none then update k.p_lnk (.scb n) (k.p_lnk x)
        else update (update k.p_lnk (.scb n) (k.p_lnk x)) x none) y = removeAfter k.p_lnk (.scb n) x y := by
      split
      · rfl
      · exact update_of_ne hy _ _
    have hremoved := h.queues.remove hempty hlnk rfl
    refine ⟨_, _, ?_, h.relink hremoved⟩
    · have htype : (k.cb_type (.scb n)).sem_mbx = true := h.cb_type (some n)
      rw [Kernel.rt_get_first, hfirst]
      simp only [head, Option.bind_eq_bind, Option.bind_some, Option.pure_def, htype, if_true, hnext]
      rfl

/-- `rt_put_rdy_first` -/
theorem HoldsQueues.put_rdy_first (h : HoldsQueues k q) (hx : x ∈ pool k.os_maxtaskrun)
    (hout : ∀ j, x ∉ q j) :
    HoldsQueues (k.rt_put_rdy_first x) (update q none (x :: q none)) :=
  h.relink (h.queues.insert (i := none) (l := []) rfl hx hout rfl)

/-- `rt_get_same_rdy_prio` -/
theorem HoldsQueues.get_same_rdy_prio (h : HoldsQueues k q) (hq : q none = x :: l) (run : Ptr) :
    ∃ lnk rlnk, k.rt_get_same_rdy_prio run =
        some (if k.prio x = k.prio run then (some x, k.relink lnk rlnk) else (none, k)) ∧
      HoldsQueues (k.relink lnk rlnk) (update q none l) := by
  have hchain := hq ▸ h.queues.chain none
  have hfirst : k.p_lnk .os_rdy = some x := hchain.1
  refine ⟨_, _, ?_, h.relink (h.queues.remove (i := none) (l := []) hq (fun _ _ => rfl) rfl)⟩
  rw [Kernel.rt_get_same_rdy_prio, hfirst]
  simp only [Option.bind_eq_bind, Option.bind_some, Option.pure_def]
  split <;> rfl

/-- The queues without a task. -/
def dropTask (q : Option Nat → List Ptr) (x : Ptr) : Option Nat → List Ptr
  | none   => q none
  | some n => (q (some n)).filter fun y => y ≠ x

/-- The part of `rt_dec_dly` that takes a task out of the list of its semaphore. -/
theorem HoldsQueues.leave_wait_list (h : HoldsQueues k q) (hx : x ∈ pool k.os_maxtaskrun) :
    ∃ lnk rlnk, k.leave_wait_list x = k.relink lnk rlnk ∧
      HoldsQueues (k.relink lnk rlnk) (dropTask q x) := by
  by_cases hwait : ∃ n, x ∈ q (some n)
  · obtain ⟨n, hn⟩ := hwait
    obtain ⟨before, after, hq, hback, hnext⟩ := (h.queues.chain (some n)).split (h.queues.back n) hn
    have hnodup := hq ▸ h.queues.nodup (some n)
    have hout := (List.nodup_cons.mp (List.nodup_middle.mp hnodup)).1
    have hdrop : dropTask q x = update q (some n) (before ++ after) := by
      funext j
      by_cases hj : j = some n
      · subst hj
        have hkeep (l : List Ptr) (hl : x ∉ l) : l.filter (fun y => y ≠ x) = l :=
          List.filter_eq_self.mpr fun y hy => decide_eq_true fun heq : y = x => hl (heq ▸ hy)
        rw [List.mem_append, not_or] at hout
        rw [update_self, dropTask, hq, List.filter_append, hkeep before hout.1,
          List.filter_cons_of_neg (by simp), hkeep after hout.2]
      · rw [update_of_ne hj]
        cases j with
        | none => rfl
        | some m =>
          refine List.filter_eq_self.mpr fun y hy => decide_eq_true ?_
          rintro rfl
          exact hj (h.queues.apart _ _ y hy hn)
    have hlnk (y : Ptr) (hy : y ≠ x) :
        update (removeAfter k.p_lnk (before.getLastD (head (some n))) x) x none y =
          removeAfter k.p_lnk (before.getLastD (head (some n))) x y := update_of_ne hy _ _
    have hremoved := h.queues.remove hq hlnk rfl
    refine ⟨_, _, ?_, hdrop ▸ h.relink hremoved⟩
    rw [Kernel.leave_wait_list, hback]
    simp only [hnext]
    rfl
  · have hout : ∀ n, x ∉ q (some n) := fun n hn => hwait ⟨n, hn⟩
    have hdrop : dropTask q x = q := by
      funext j
      cases j with
      | none => rfl
      | some n =>
        refine List.filter_eq_self.mpr fun y hy => decide_eq_true ?_
        rintro rfl
        exact hout n hy
    refine ⟨k.p_lnk, k.p_rlnk, ?_, ?_⟩
    · rw [Kernel.leave_wait_list, h.queues.unlinked x hx hout]
      rfl
    · rw [hdrop]
      exact h

end

end Rtx
