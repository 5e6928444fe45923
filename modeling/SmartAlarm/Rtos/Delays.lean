-- SUMMARY: What the functions of `rt_List.c` do to the delay list, down to the differences that it stores.
import SmartAlarm.Lib.DeltaList
import SmartAlarm.Rtos.Queues

/-!
# The delay list in memory

A task that sleeps has its time nowhere in memory. The list is a delta list, and
`delta_time` counts in 16 bits. No difference that is stored overflows, since no
task sleeps for longer than 65534 ticks.
-/

namespace Rtx

open Function Linked DeltaList

/-- The memory holds the sleeping tasks `a`, with the ticks that they still sleep. -/
structure Delays (max : Nat) (dlnk blnk : Ptr → Option Ptr) (delta : Ptr → Nat)
    (a : List (Ptr × Nat)) : Prop where
  chain : Chain dlnk .os_dly (a.map Prod.fst)
  back : Back blnk .os_dly (a.map Prod.fst)
  coded : Coded delta (.os_dly, 0) a
  unlinked : ∀ x ∈ pool max, x ∉ a.map Prod.fst → blnk x = none
  nodup : (a.map Prod.fst).Nodup
  tasks : ∀ x ∈ a.map Prod.fst, x ∈ pool max
  limit : ∀ x ∈ a, x.2 < 65535

section

variable {max : Nat} {dlnk dlnk' blnk blnk' : Ptr → Option Ptr} {delta delta' : Ptr → Nat}
  {a l r : List (Ptr × Nat)} {x : Ptr} {t : Nat}

theorem Delays.os_dly_not_mem (h : Delays max dlnk blnk delta a) : .os_dly ∉ a.map Prod.fst :=
  fun hmem => os_dly_not_mem_pool (h.tasks _ hmem)

theorem Delays.nodup_cons (h : Delays max dlnk blnk delta a) :
    (Ptr.os_dly :: a.map Prod.fst).Nodup := List.nodup_cons.mpr ⟨h.os_dly_not_mem, h.nodup⟩

/-- The last entry of a part, or the header. -/
def last (l : List (Ptr × Nat)) : Ptr × Nat := l.getLastD (.os_dly, 0)

theorem last_concat (l : List (Ptr × Nat)) (y : Ptr × Nat) : last (l ++ [y]) = y :=
  List.getLastD_concat ..

theorem last_fst (l : List (Ptr × Nat)) : (l.map Prod.fst).getLastD .os_dly = (last l).1 :=
  getLastD_map_fst l (.os_dly, 0)

/-- A task goes to sleep, at a place that fits its time. -/
theorem Delays.insert (h : Delays max dlnk blnk delta (l ++ r)) (hx : x ∈ pool max)
    (hout : x ∉ (l ++ r).map Prod.fst) (ht : t < 65535) (hlow : (last l).2 ≤ t)
    (hhigh : ∀ y ∈ r.head?, t ≤ y.2)
    (hdlnk : dlnk' = insertAfter dlnk (last l).1 x)
    (hblnk : ∀ y, blnk' y =
      update (setAt blnk (r.map Prod.fst).head? (some x)) x (some (last l).1) y)
    (hdelta : ∀ y, delta' y =
      update (update delta x (gap (x, t) r)) (last l).1 (t - (last l).2) y) :
    Delays max dlnk' blnk' delta' (l ++ (x, t) :: r) := by
  have hnodup := h.nodup_cons
  have hhead : x ∉ Ptr.os_dly :: (l ++ r).map Prod.fst := by
    rw [List.mem_cons, not_or]
    exact ⟨fun heq => os_dly_not_mem_pool (heq ▸ hx), hout⟩
  have hchain := h.chain
  have hback := h.back
  have hnodup' := h.nodup
  have hmem (y : Ptr) : y ∈ (l ++ (x, t) :: r).map Prod.fst ↔ y = x ∨ y ∈ (l ++ r).map Prod.fst := by
    simp only [List.map_append, List.map_cons, List.mem_append, List.mem_cons]
    tauto
  refine ⟨?_, ?_, ?_, fun y hy hnone => ?_, ?_, fun y hy => ?_, fun y hy => ?_⟩
  · rw [List.map_append] at hchain hnodup hhead
    rw [List.map_append, List.map_cons, hdlnk, ← last_fst]
    exact hchain.insertAfter hnodup hhead
  · rw [List.map_append] at hback hnodup' hout
    rw [List.map_append, List.map_cons]
    refine Back.congr ?_ fun y _ => hblnk y
    rw [← last_fst]
    exact hback.insert hnodup' hout
  · refine Coded.congr ?_ fun y _ => hdelta y.1
    exact h.coded.insert (x := (x, t)) hnodup hhead hlow hhigh
  · rw [hmem, not_or] at hnone
    rw [hblnk, update_of_ne hnone.1, setAt_of_ne, h.unlinked y hy hnone.2]
    intro heq
    refine hnone.2 ?_
    rw [List.map_append]
    exact List.mem_append_right _ (List.mem_of_mem_head? (Option.mem_def.mpr heq))
  · rw [List.map_append] at hnodup' hout
    rw [List.map_append, List.map_cons]
    exact List.nodup_middle.mpr (List.nodup_cons.mpr ⟨hout, hnodup'⟩)
  · rcases (hmem y).mp hy with rfl | hy
    · exact hx
    · exact h.tasks y hy
  · rcases List.mem_append.mp hy with hy | hy
    · exact h.limit y (List.mem_append_left r hy)
    · rcases List.mem_cons.mp hy with rfl | hy
      · exact ht
      · exact h.limit y (List.mem_append_right l hy)

/-- A task is taken out of the list. Its own pointers and its own difference are of no
    account. -/
theorem Delays.remove (h : Delays max dlnk blnk delta (l ++ (x, t) :: r))
    (hdlnk : ∀ y, y ≠ x → dlnk' y = removeAfter dlnk (last l).1 x y)
    (hblnk : blnk' = update (setAt blnk (r.map Prod.fst).head? (some (last l).1)) x none)
    (hdelta : ∀ y, y ≠ x → delta' y = update delta (last l).1
      (if r = [] then 0 else delta (last l).1 + delta x) y) :
    Delays max dlnk' blnk' delta' (l ++ r) := by
  have hchain := h.chain
  have hback := h.back
  have hnodup := h.nodup
  have hcons := h.nodup_cons
  have hfirst := h.os_dly_not_mem
  rw [List.map_append, List.map_cons] at hchain hback hnodup hcons hfirst
  obtain ⟨hxout, hnodup'⟩ := List.nodup_cons.mp (List.nodup_middle.mp hnodup)
  have hxdly : Ptr.os_dly ≠ x := fun heq => hfirst (heq ▸ by simp)
  have hmem (y : Ptr) : y ∈ (l ++ (x, t) :: r).map Prod.fst ↔ y = x ∨ y ∈ (l ++ r).map Prod.fst := by
    simp only [List.map_append, List.map_cons, List.mem_append, List.mem_cons]
    tauto
  have hne (y : Ptr) (hy : y ∈ Ptr.os_dly :: (l ++ r).map Prod.fst) : y ≠ x := by
    rintro rfl
    rcases List.mem_cons.mp hy with heq | hy
    · exact hxdly heq.symm
    · rw [List.map_append] at hy
      exact hxout hy
  refine ⟨?_, ?_, ?_, fun y hy hnone => ?_, ?_, fun y hy => h.tasks y ((hmem y).mpr (.inr hy)),
    fun y hy => h.limit y ?_⟩
  · have hremoved : Chain (removeAfter dlnk (last l).1 x) .os_dly ((l ++ r).map Prod.fst) := by
      rw [List.map_append, ← last_fst]
      exact hchain.removeAfter hcons
    exact hremoved.congr fun y hy => hdlnk y (hne y hy)
  · rw [List.map_append, hblnk, ← last_fst]
    exact (hback.remove hnodup).update_of_notMem hxout _
  · refine Coded.congr (h.coded.remove ?_) fun y hy => hdelta y.1 (hne y.1 ?_)
    · simpa using hcons
    · rcases List.mem_cons.mp hy with rfl | hy
      · exact List.mem_cons_self
      · exact List.mem_cons_of_mem _ (List.mem_map_of_mem hy)
  · rw [hblnk]
    by_cases hyx : y = x
    · rw [hyx, update_self]
    · rw [update_of_ne hyx, setAt_of_ne, h.unlinked y hy fun hin => ?_]
      · exact ((hmem y).mp hin).elim hyx hnone
      · intro heq
        refine hnone ?_
        rw [List.map_append]
        exact List.mem_append_right _ (List.mem_of_mem_head? (Option.mem_def.mpr heq))
  · rwa [List.map_append]
  · rcases List.mem_append.mp hy with hy | hy
    · exact List.mem_append_left _ hy
    · exact List.mem_append_right l (List.mem_cons_of_mem _ hy)

/-- The pointers of a task that does not sleep can be cleared. -/
theorem Delays.clear (h : Delays max dlnk blnk delta a) (hx : x ∈ pool max)
    (hout : x ∉ a.map Prod.fst) :
    Delays max (update dlnk x none) (update blnk x none) (update delta x 0) a := by
  have hhead : x ∉ Ptr.os_dly :: a.map Prod.fst := by
    rw [List.mem_cons, not_or]
    exact ⟨fun heq => os_dly_not_mem_pool (heq ▸ hx), hout⟩
  refine ⟨h.chain.update_of_notMem hhead _, h.back.update_of_notMem hout _,
    h.coded.update_of_notMem hhead _, fun y hy hnone => ?_, h.nodup, h.tasks, h.limit⟩
  by_cases hyx : y = x
  · rw [hyx, update_self]
  · rw [update_of_ne hyx]
    exact h.unlinked y hy hnone

/-- What is stored with the last entry of a part. -/
theorem Delays.delta_last (h : Delays max dlnk blnk delta (l ++ r)) :
    delta (last l).1 = gap (last l) r := h.coded.getLastD

/-- The entries before a place are due no later than the one behind it. -/
theorem Delays.last_le (h : Delays max dlnk blnk delta (l ++ r)) : ∀ y ∈ r, (last l).2 ≤ y.2 := by
  intro y hy
  have htimely := h.coded.timely
  rcases List.eq_nil_or_concat' l with rfl | ⟨l, z, rfl⟩
  · exact Nat.zero_le _
  · rw [last_concat]
    have hpair := (List.pairwise_cons.mp htimely).2
    exact (List.pairwise_append.mp hpair).2.2 z (by simp) y hy

end

/-! ## Functions on the delay list -/

section

variable {k : Kernel} {a l r : List (Ptr × Nat)} {x : Ptr} {y : Ptr × Nat} {d t n : Nat}

/-- The kernel's memory holds the sleeping tasks `a`. -/
def HoldsDelays (k : Kernel) (a : List (Ptr × Nat)) : Prop :=
  Delays k.os_maxtaskrun k.p_dlnk k.p_blnk k.delta_time a

/-- Only what the delay list stores may differ. -/
def Kernel.redelay (k : Kernel) (dlnk blnk : Ptr → Option Ptr) (delta : Ptr → Nat) : Kernel :=
  { k with p_dlnk := dlnk, p_blnk := blnk, delta_time := delta }

theorem HoldsDelays.dlnk_last (h : HoldsDelays k (l ++ r)) :
    k.p_dlnk (last l).1 = (r.map Prod.fst).head? := by
  have hchain := h.chain
  rw [List.map_append] at hchain
  rw [← last_fst]
  exact hchain.next_getLastD

theorem last_fst_ne (hx : x ∈ pool k.os_maxtaskrun)
    (hout : x ∉ (l ++ r).map Prod.fst) : (last l).1 ≠ x := by
  rintro rfl
  rw [← last_fst] at hx hout
  rcases List.mem_cons.mp (getLastD_mem (l.map Prod.fst) .os_dly) with heq | hmem
  · exact os_dly_not_mem_pool (heq ▸ hx)
  · rw [List.map_append] at hout
    exact hout (List.mem_append_left _ hmem)

/-- Tasks that are due no later than the last of their part are due before a later time. -/
theorem HoldsDelays.lt_of_last (h : HoldsDelays k (l ++ r)) (hlast : (last l).2 < d) :
    ∀ y ∈ l, y.2 < d := by
  intro y hy
  rcases List.eq_nil_or_concat' l with rfl | ⟨l, z, rfl⟩
  · cases hy
  · rw [last_concat] at hlast
    have htimely := (List.pairwise_append.mp (List.pairwise_cons.mp h.coded.timely).2).1
    rcases List.mem_append.mp hy with hy | hy
    · exact ((List.pairwise_append.mp htimely).2.2 y hy z (by simp)).trans_lt hlast
    · rwa [List.mem_singleton.mp hy]

/-- The label `last` of `rt_put_dly`. -/
theorem HoldsDelays.put_last (h : HoldsDelays k l) (hx : x ∈ pool k.os_maxtaskrun)
    (hout : x ∉ l.map Prod.fst) (hd : d < 65535) (hlast : (last l).2 < d) :
    HoldsDelays (k.put_last x d (last l).1 (last l).2) (DeltaList.insert (x, d) l) := by
  have happend : HoldsDelays k (l ++ []) := (List.append_nil l).symm ▸ h
  have hout' : x ∉ (l ++ []).map Prod.fst := (List.append_nil l).symm ▸ hout
  have hne := last_fst_ne hx hout'
  have hplace : DeltaList.insert (x, d) l = l ++ [(x, d)] := by
    have hbehind := insert_append (x := (x, d)) (r := []) (happend.lt_of_last hlast)
    rwa [List.append_nil] at hbehind
  have hword : u16 (d - (last l).2) = d - (last l).2 := Nat.mod_eq_of_lt (by omega)
  rw [hplace]
  refine Delays.insert happend hx hout' hd hlast.le (by simp) ?_ (fun _ => rfl) fun y => ?_
  · rw [insertAfter, happend.dlnk_last]
    rfl
  · dsimp only [Kernel.put_last, gap]
    rw [hword, update_comm hne]

/-- The end of `rt_put_dly`, with the right place found. -/
theorem HoldsDelays.put_here (h : HoldsDelays k (l ++ y :: r)) (hx : x ∈ pool k.os_maxtaskrun)
    (hout : x ∉ (l ++ y :: r).map Prod.fst) (hlast : (last l).2 < d) (hd : d ≤ y.2) :
    HoldsDelays (k.put_here x d (last l).1 y.2) (DeltaList.insert (x, d) (l ++ y :: r)) := by
  have hne := last_fst_ne hx hout
  have hlimit := h.limit y (by simp)
  have hdelta : k.delta_time (last l).1 = y.2 - (last l).2 := Delays.delta_last h
  have hyx : y.1 ≠ x := fun heq => hout (heq ▸ List.mem_map_of_mem (by simp))
  have hword : u16 (y.2 - d) = y.2 - d := Nat.mod_eq_of_lt (by omega)
  have hrest : u16 (k.delta_time (last l).1 + 65536 - u16 (y.2 - d)) = d - (last l).2 := by
    rw [hword, hdelta, u16]
    omega
  rw [insert_append (h.lt_of_last hlast), insert_cons_of_le hd]
  refine Delays.insert h hx hout (by omega) hlast.le (by simpa using hd) rfl (fun z => ?_) fun z => ?_
  · dsimp only [Kernel.put_here]
    rw [h.dlnk_last]
    exact congrFun (update_comm hyx.symm _ _ _) z
  · dsimp only [Kernel.put_here, gap]
    rw [hrest, hword]

/-- The search of `rt_put_dly`, with the part `l` of the list behind it. -/
theorem HoldsDelays.put_dly_loop (h : HoldsDelays k (l ++ r)) (hx : x ∈ pool k.os_maxtaskrun)
    (hout : x ∉ (l ++ r).map Prod.fst) (hd : d < 65535) (hlast : (last l).2 < d)
    (hn : r.length < n) :
    ∃ dlnk blnk delta,
      k.put_dly_loop x d n (last l).1 ((last l).2 + k.delta_time (last l).1) =
        some (k.redelay dlnk blnk delta) ∧
      HoldsDelays (k.redelay dlnk blnk delta) (DeltaList.insert (x, d) (l ++ r)) := by
  induction n generalizing l r with
  | zero => cases hn
  | succ n ih =>
    have hdelta : k.delta_time (last l).1 = gap (last l) r := Delays.delta_last h
    have hnext := h.dlnk_last
    cases r with
    | nil =>
      rw [List.append_nil] at h hout ⊢
      refine ⟨_, _, _, ?_, h.put_last hx hout hd hlast⟩
      rw [Kernel.put_dly_loop, hdelta, gap, Nat.add_zero, if_pos hlast, hnext]
      rfl
    | cons y r =>
      have hle := Delays.last_le h y List.mem_cons_self
      have htime : (last l).2 + k.delta_time (last l).1 = y.2 := by
        rw [hdelta, gap]
        omega
      rw [htime, Kernel.put_dly_loop]
      by_cases hlt : y.2 < d
      · have hsplit : l ++ y :: r = (l ++ [y]) ++ r := by simp
        rw [hsplit] at h hout
        have hpast := ih (l := l ++ [y]) h hout (by rwa [last_concat])
          (Nat.lt_of_succ_lt_succ hn)
        have hnext_time : u32 (y.2 + k.delta_time y.1) = y.2 + k.delta_time y.1 := by
          have hlimit := h.limit
          have hstored : k.delta_time (last (l ++ [y])).1 = gap (last (l ++ [y])) r :=
            Delays.delta_last h
          rw [last_concat] at hstored
          refine Nat.mod_eq_of_lt ?_
          rw [hstored]
          cases r with
          | nil => simpa [gap] using (hlimit y (by simp)).trans (by decide)
          | cons z r =>
            have hy := hlimit y (by simp)
            have hz := hlimit z (by simp)
            dsimp only [gap]
            omega
        rw [last_concat] at hpast
        rw [if_pos hlt, hnext, hsplit, List.map_cons, List.head?_cons]
        dsimp only
        rw [hnext_time]
        exact hpast
      · rw [if_neg hlt]
        exact ⟨_, _, _, rfl, h.put_here hx hout hlast (not_lt.mp hlt)⟩

/-- `rt_put_dly` -/
theorem HoldsDelays.put_dly (h : HoldsDelays k a) (hx : x ∈ pool k.os_maxtaskrun)
    (hout : x ∉ a.map Prod.fst) (hpos : 0 < d) (hd : d < 65535) :
    ∃ dlnk blnk delta, k.rt_put_dly x d = some (k.redelay dlnk blnk delta) ∧
      HoldsDelays (k.redelay dlnk blnk delta) (DeltaList.insert (x, d) a) := by
  have hfirst : k.p_dlnk .os_dly = (a.map Prod.fst).head? := HoldsDelays.dlnk_last (l := []) h
  cases a with
  | nil =>
    refine ⟨_, _, _, ?_, h.put_last hx hout hd hpos⟩
    rw [Kernel.rt_put_dly, hfirst]
    rfl
  | cons y r =>
    have hn : (y :: r).length < k.passes := by
      have hlen := length_lt_passes h.nodup h.tasks
      rwa [List.length_map] at hlen
    have hloop := HoldsDelays.put_dly_loop (l := []) h hx hout hd hpos hn
    rw [Kernel.rt_put_dly, hfirst]
    simpa [last] using hloop

/-- What the pointers of a sleeping task lead to. -/
theorem HoldsDelays.links (h : HoldsDelays k (l ++ (x, t) :: r)) :
    k.p_blnk x = some (last l).1 ∧ k.p_dlnk x = (r.map Prod.fst).head? := by
  have hback := h.back
  have hchain := h.chain
  rw [List.map_append, List.map_cons] at hback hchain
  refine ⟨last_fst l ▸ (back_append.mp hback).2.1, ?_⟩
  exact Chain.next_getLastD (l := []) (chain_append hchain).2

theorem filter_ne_of_notMem (h : x ∉ a.map Prod.fst) : a.filter (fun y => y.1 ≠ x) = a := by
  refine List.filter_eq_self.mpr fun y hy => decide_eq_true ?_
  rintro rfl
  exact h (List.mem_map_of_mem hy)

/-- What is stored before a task that is taken out. -/
theorem HoldsDelays.merged (h : HoldsDelays k (l ++ (x, t) :: r)) :
    (if k.p_dlnk x = none then 0 else u16 (k.delta_time (last l).1 + k.delta_time x)) =
      if r = [] then 0 else k.delta_time (last l).1 + k.delta_time x := by
  rw [h.links.2]
  cases r with
  | nil => rfl
  | cons y r =>
    have hbefore : k.delta_time (last l).1 = t - (last l).2 := Delays.delta_last h
    have hsplit : l ++ (x, t) :: y :: r = (l ++ [(x, t)]) ++ y :: r := by simp
    have hafter : k.delta_time x = y.2 - t := by
      have hstored := Delays.delta_last (hsplit ▸ h)
      rwa [last_concat] at hstored
    have hlimit := h.limit y (by simp)
    have hle : t ≤ y.2 := by
      have hpast := Delays.last_le (hsplit ▸ h) y List.mem_cons_self
      rwa [last_concat] at hpast
    rw [List.map_cons, List.head?_cons, if_neg nofun, if_neg nofun, hbefore, hafter, u16]
    omega

/-- `rt_rmv_dly` -/
theorem HoldsDelays.rmv_dly (h : HoldsDelays k a) (hx : x ∈ pool k.os_maxtaskrun) :
    ∃ dlnk blnk delta, k.rt_rmv_dly x = k.redelay dlnk blnk delta ∧
      HoldsDelays (k.redelay dlnk blnk delta) (a.filter fun y => y.1 ≠ x) := by
  by_cases hmem : x ∈ a.map Prod.fst
  · obtain ⟨⟨x, t⟩, hin, rfl⟩ := List.mem_map.mp hmem
    obtain ⟨l, r, rfl⟩ := List.append_of_mem hin
    obtain ⟨hblnk, hdlnk⟩ := h.links
    have hnodup := h.nodup
    rw [List.map_append, List.map_cons] at hnodup
    have hout := (List.nodup_cons.mp (List.nodup_middle.mp hnodup)).1
    rw [List.mem_append, not_or] at hout
    have hkeep : (l ++ (x, t) :: r).filter (fun y => y.1 ≠ x) = l ++ r := by
      rw [List.filter_append, List.filter_cons_of_neg (by simp), filter_ne_of_notMem hout.1,
        filter_ne_of_notMem hout.2]
    have hstored := h.merged
    rw [hkeep]
    refine ⟨update (removeAfter k.p_dlnk (last l).1 x) x none, _, _, ?_,
      Delays.remove h (fun y hy => update_of_ne hy _ _) rfl fun y _ => rfl⟩
    dsimp only
    rw [Kernel.rt_rmv_dly, hblnk]
    dsimp only
    rw [hstored, hdlnk]
    rfl
  · refine ⟨k.p_dlnk, k.p_blnk, k.delta_time, ?_, ?_⟩
    · rw [Kernel.rt_rmv_dly, h.unlinked x hx hmem]
      rfl
    · rw [filter_ne_of_notMem hmem]
      exact h

/-- The tick of `rt_dec_dly`. -/
theorem HoldsDelays.tick (h : HoldsDelays k (y :: a)) (hpos : 0 < y.2) :
    HoldsDelays { k with
      delta_time := update k.delta_time .os_dly (u16 (k.delta_time .os_dly + 65535)) }
      (DeltaList.tick (y :: a)) := by
  have hstored : k.delta_time .os_dly = y.2 := h.coded.1
  have hlimit := h.limit y List.mem_cons_self
  have hword : u16 (k.delta_time .os_dly + 65535) = k.delta_time .os_dly - 1 := by
    rw [hstored, u16]
    omega
  refine ⟨?_, ?_, ?_, ?_, ?_, ?_, fun z hz => ?_⟩
  · rw [map_fst_tick]
    exact h.chain
  · rw [map_fst_tick]
    exact h.back
  · dsimp only
    rw [hword]
    exact Coded.tick (c := (.os_dly, 0)) h.coded hpos h.os_dly_not_mem
  · rw [map_fst_tick]
    exact h.unlinked
  · rw [map_fst_tick]
    exact h.nodup
  · rw [map_fst_tick]
    exact h.tasks
  · obtain ⟨w, hw, rfl⟩ := List.mem_map.mp hz
    exact (Nat.sub_le _ _).trans_lt (h.limit w hw)

/-- The first task of the list is due: it leaves the list, and is ready. -/
theorem HoldsDelays.leave_dly (h : HoldsDelays k ((x, 0) :: a)) (hstate : k.state x ≠ .WAIT_ITV) :
    ∃ dlnk blnk delta,
      k.leave_dly x = { k.redelay dlnk blnk delta with state := update k.state x .READY } ∧
      HoldsDelays (k.redelay dlnk blnk delta) a := by
  have hdue : k.delta_time .os_dly = 0 := h.coded.1
  obtain ⟨-, hdlnk⟩ := HoldsDelays.links (l := []) h
  have hrest : (if a = [] then 0 else k.delta_time .os_dly + k.delta_time x) = k.delta_time x := by
    cases a with
    | nil => exact (coded_nil.mp h.coded.2).symm
    | cons z a => rw [if_neg nofun, hdue, Nat.zero_add]
  refine ⟨update (removeAfter k.p_dlnk .os_dly x) x none, _, _, ?_,
    Delays.remove (l := []) h (fun z hz => update_of_ne hz _ _) rfl fun z _ => rfl⟩
  have hlast : (last []).1 = .os_dly := rfl
  rw [Kernel.leave_dly, hlast, hrest]
  dsimp only
  rw [if_neg hstate, hdlnk]
  rfl

end

end Rtx
