-- SUMMARY: The list of the user timers: what inserting, removing and a tick do to the times that it stands for.
import SmartAlarm.Lib.DeltaList
import SmartAlarm.Lib.PriorityQueue
import SmartAlarm.Rtos.Timer
import Mathlib.Data.Fintype.Card

/-!
# The list of the user timers

The links and the differences of the control blocks stand for a list of timers with
the ticks that each still has to go. A timer is put behind those that are due at
the same tick.
-/

namespace Rtx

open Function DeltaList PriorityQueue

variable {n : Nat} {k : Timers n} {a b l : List (Fin n × Nat)} {x : Fin n} {d t : Nat}

/-- The sooner a timer is due, the further in front it stands. -/
def sooner (y : Fin n × Nat) : Natᵒᵈ := OrderDual.toDual y.2

/-- The blocks with other links and differences. -/
def Timers.relist (k : Timers n) (next : Fin n → Option (Fin n)) (tcnt : Fin n → Nat)
    (os_timer_head : Option (Fin n)) : Timers n :=
  { k with next := next, tcnt := tcnt, os_timer_head := os_timer_head }

/-- The blocks stand for a list of timers and times. -/
structure Listed (k : Timers n) (l : List (Fin n × Nat)) : Prop where
  starts : Linked.Starts k.next k.os_timer_head (l.map Prod.fst)
  lagged : Lagged k.tcnt 0 l
  nodup : (l.map Prod.fst).Nodup

theorem length_le_of_nodup (hnodup : (l.map Prod.fst).Nodup) : l.length ≤ n := by
  have hcard := hnodup.length_le_card
  rwa [List.length_map, Fintype.card_fin] at hcard

/-! ## Inserting -/

/-- The loop stops before the first timer that is due later. -/
theorem Timers.insert_loop_eq (prev : Option (Fin n)) {p : Option (Fin n)}
    (hstarts : Linked.Starts k.next p ((a ++ b).map Prod.fst)) (hlagged : Lagged k.tcnt t (a ++ b))
    (hle : t ≤ d) (ha : ∀ y ∈ a, y.2 ≤ d) (hb : ∀ y ∈ b.head?, d < y.2) {m : Nat} (hm : a.length < m) :
    k.insert_loop m prev p (d - t) =
      some (Linked.last prev (a.map Prod.fst), (b.map Prod.fst).head?, d - lastTime t a) := by
  obtain ⟨m, rfl⟩ := Nat.exists_eq_succ_of_ne_zero (Nat.ne_of_gt (Nat.zero_lt_of_lt hm))
  induction a generalizing prev p t m with
  | nil =>
    rw [hstarts.head]
    cases b with
    | nil => rfl
    | cons y b =>
      have hy := hlagged.1
      have hlater := hb y rfl
      exact if_pos (by omega)
  | cons y a ih =>
    obtain ⟨rfl, hchain⟩ := hstarts
    obtain ⟨hyd, ha'⟩ := List.forall_mem_cons.mp ha
    have hy := hlagged.1
    have hm' := Nat.lt_of_succ_lt_succ hm
    obtain ⟨m, rfl⟩ := Nat.exists_eq_succ_of_ne_zero (Nat.ne_of_gt (Nat.zero_lt_of_lt hm'))
    rw [insert_loop, if_neg (by omega), show d - t - k.tcnt y.1 = d - y.2 by omega]
    exact ih _ hchain.starts hlagged.2 hyd ha' _ hm'

/-- `rt_timer_insert` -/
theorem Listed.insert (h : Listed k l) (hx : x ∉ l.map Prod.fst) (d : Nat) :
    ∃ next tcnt head, k.rt_timer_insert x d = some (k.relist next tcnt head) ∧
      Listed (k.relist next tcnt head) (enqueue sooner (x, d) l) := by
  obtain ⟨a, b, rfl, hsplit, ha, hb⟩ := enqueue_split sooner (x, d) l
  have hlen : a.length < n + 1 := by
    have hle := length_le_of_nodup h.nodup
    rw [List.length_append] at hle
    omega
  have hloop := Timers.insert_loop_eq none h.starts h.lagged (Nat.zero_le d) ha hb hlen
  rw [Nat.sub_zero] at hloop
  have hlow : lastTime 0 a ≤ d := lastTime_le ha (Nat.zero_le d)
  have hnodup : ((enqueue sooner (x, d) (a ++ b)).map Prod.fst).Nodup :=
    ((enqueue_perm _ _ _).map _).nodup_iff.mpr (List.nodup_cons.mpr ⟨hx, h.nodup⟩)
  have hstarts := h.starts
  have hnodup' := h.nodup
  have hxmap := hx
  rw [List.map_append] at hstarts hnodup' hxmap
  have hlinks := hstarts.insert hnodup' hxmap
  have htimes := h.lagged.insert (x := (x, d)) h.nodup hx hlow fun y hy => (hb y hy).le
  rw [hsplit] at hnodup ⊢
  refine ⟨Linked.setAt (update k.next x (b.map Prod.fst).head?) (Linked.last none (a.map Prod.fst)) (some x),
    atHead (update k.tcnt x (d - lastTime 0 a)) b (· - (d - lastTime 0 a)),
    if Linked.last none (a.map Prod.fst) = none then some x else k.os_timer_head, ?_, ?_, htimes, hnodup⟩
  · rw [Timers.rt_timer_insert, hloop]
    cases b with
    | nil => rfl
    | cons y b =>
      have hyx : y.1 ≠ x := fun heq => hx (by simp [← heq])
      simp only [Timers.insert_between, Timers.relist, atHead, update_of_ne hyx]
      rfl
  · rw [List.map_append]
    exact hlinks

/-! ## Removing -/

/-- The loop finds a timer that is in the list. -/
theorem Timers.remove_loop_eq {a b : List (Fin n)} (prev : Option (Fin n)) {p : Option (Fin n)}
    (hstarts : Linked.Starts k.next p (a ++ x :: b)) (hx : x ∉ a) {m : Nat} (hm : a.length < m) :
    k.remove_loop x m prev p = some (Linked.last prev a, some x) := by
  obtain ⟨m, rfl⟩ := Nat.exists_eq_succ_of_ne_zero (Nat.ne_of_gt (Nat.zero_lt_of_lt hm))
  induction a generalizing prev p m with
  | nil =>
    rw [hstarts.head]
    exact if_pos rfl
  | cons y a ih =>
    obtain ⟨rfl, hchain⟩ := hstarts
    obtain ⟨hxy, hxa⟩ := List.ne_and_not_mem_of_not_mem_cons hx
    have hm' := Nat.lt_of_succ_lt_succ hm
    obtain ⟨m, rfl⟩ := Nat.exists_eq_succ_of_ne_zero (Nat.ne_of_gt (Nat.zero_lt_of_lt hm'))
    rw [remove_loop, if_neg (Ne.symm hxy)]
    exact ih _ hchain.starts hxa _ hm'

/-- `rt_timer_remove` -/
theorem Listed.remove (h : Listed k (a ++ (x, t) :: b)) (hlimit : ∀ y ∈ b, y.2 < 4294967296) :
    ∃ next tcnt head, k.rt_timer_remove x = some (true, k.relist next tcnt head) ∧
      Listed (k.relist next tcnt head) (a ++ b) := by
  have hlen : (a.map Prod.fst).length < n + 1 := by
    have hle := length_le_of_nodup h.nodup
    rw [List.length_append] at hle
    rw [List.length_map]
    omega
  have hstarts := h.starts
  have hnodup := h.nodup
  rw [List.map_append, List.map_cons] at hstarts hnodup
  have hout := (List.nodup_cons.mp (List.nodup_middle.mp hnodup)).1
  have hloop := Timers.remove_loop_eq none hstarts (fun hmem => hout (List.mem_append_left _ hmem)) hlen
  have hnext : k.next x = (b.map Prod.fst).head? := hstarts.chain.starts.head
  refine ⟨Linked.setAt k.next (Linked.last none (a.map Prod.fst)) (k.next x), atHead k.tcnt b (· + k.tcnt x),
    if Linked.last none (a.map Prod.fst) = none then k.next x else k.os_timer_head, ?_, ?_,
    h.lagged.remove h.nodup, ?_⟩
  · rw [Timers.rt_timer_remove, hloop]
    simp only [Option.bind_eq_bind, Option.bind_some, hnext]
    cases b with
    | nil => rfl
    | cons y b =>
      have hrest := h.lagged.append
      have htx : lastTime 0 a + k.tcnt x = t := hrest.1
      have hty : t + k.tcnt y.1 = y.2 := hrest.2.1
      have hlimit' := hlimit y List.mem_cons_self
      have hsum : u32 (k.tcnt y.1 + k.tcnt x) = k.tcnt y.1 + k.tcnt x := Nat.mod_eq_of_lt (by omega)
      simp only [List.map_cons, List.head?_cons, hsum]
      rfl
  · rw [List.map_append]
    exact hstarts.remove hnodup
  · rw [List.map_append]
    exact (List.nodup_cons.mp (List.nodup_middle.mp hnodup)).2

/-! ## The tick -/

/-- Time that passes is taken from what the first timer stores. -/
theorem Listed.elapse (h : Listed k ((x, t) :: l)) (hd : d ≤ t) :
    Listed { k with tcnt := update k.tcnt x (t - d) } (elapse d ((x, t) :: l)) := by
  have hout : x ∉ l.map Prod.fst := (List.nodup_cons.mp h.nodup).1
  refine ⟨?_, h.lagged.elapse hout hd, ?_⟩
  · rw [map_fst_elapse]
    exact h.starts
  · rw [map_fst_elapse]
    exact h.nodup

/-- What the loop of `sysTimerTick` does with a timer that is due: a periodic one goes back
    into the list. What `p` points to then is not due. -/
theorem Listed.reload {due rest : List (Fin n × Nat)} (h : Listed k ((x, 0) :: due ++ rest))
    (hdue : ∀ y ∈ due, y.2 = 0) (hrest : ∀ y ∈ rest, 0 < y.2) :
    ∃ k' rest',
      (if k.type x = .osTimerPeriodic then
        { k with os_timer_head := k.next x }.rt_timer_insert x (k.icnt x)
      else some { k with os_timer_head := k.next x, state := update k.state x .osTimerStopped }) = some k' ∧
      Listed k' (due ++ rest') ∧ k'.type = k.type ∧ k'.icnt = k.icnt ∧
      k'.state = (if k.type x = .osTimerPeriodic then k.state else update k.state x .osTimerStopped) ∧
      (∀ z, z ∈ rest' ↔ z ∈ rest ∨ k.type x = .osTimerPeriodic ∧ z = (x, k.icnt x)) ∧
      (due = [] → ∀ y ∈ k.next x, k'.tcnt y ≠ 0) := by
  have hout : x ∉ (due ++ rest).map Prod.fst := (List.nodup_cons.mp h.nodup).1
  have hrest' : Listed { k with os_timer_head := k.next x } (due ++ rest) :=
    ⟨h.starts.2.starts, h.lagged.2, (List.nodup_cons.mp h.nodup).2⟩
  have hfirst : k.next x = ((due ++ rest).map Prod.fst).head? := hrest'.starts.head
  by_cases hperiodic : k.type x = .osTimerPeriodic
  · obtain ⟨next, tcnt, head, hinsert, hlisted⟩ := hrest'.insert hout (k.icnt x)
    have hbehind : enqueue sooner (x, k.icnt x) (due ++ rest) = due ++ enqueue sooner (x, k.icnt x) rest := by
      refine enqueue_append fun y hy => ?_
      have hle : y.2 ≤ k.icnt x := hdue y hy ▸ Nat.zero_le _
      exact hle
    rw [hbehind] at hlisted
    refine ⟨_, _, by rw [if_pos hperiodic, hinsert], hlisted, rfl, rfl, by rw [if_pos hperiodic]; rfl, ?_, ?_⟩
    · intro z
      rw [mem_enqueue, or_comm, and_iff_right hperiodic]
    · rintro rfl y hy
      rw [hfirst, List.nil_append] at hy
      cases rest with
      | nil => cases hy
      | cons z rest =>
        obtain rfl : z.1 = y := Option.some.inj hy
        have hz := hrest z List.mem_cons_self
        have hlagged := hlisted.lagged
        rw [List.nil_append] at hlagged
        by_cases hlater : z.2 ≤ k.icnt x
        · have hcons : enqueue sooner (x, k.icnt x) (z :: rest) = z :: enqueue sooner (x, k.icnt x) rest :=
            enqueue_append (l := [z]) (by simpa [sooner] using hlater)
          rw [hcons] at hlagged
          have hcode := hlagged.1
          omega
        · have hcons : enqueue sooner (x, k.icnt x) (z :: rest) = (x, k.icnt x) :: z :: rest :=
            enqueue_cons_of_lt (not_le.mp hlater)
          rw [hcons] at hlagged
          have hcode : k.icnt x + tcnt z.1 = z.2 := hlagged.2.1
          have hlt := not_le.mp hlater
          show tcnt z.1 ≠ 0
          omega
  · refine ⟨_, rest, if_neg hperiodic, ⟨hrest'.starts, hrest'.lagged, hrest'.nodup⟩, rfl, rfl,
      (if_neg hperiodic).symm, ?_, ?_⟩
    · intro z
      simp [hperiodic]
    · rintro rfl y hy
      rw [hfirst, List.nil_append] at hy
      cases rest with
      | nil => cases hy
      | cons z rest =>
        obtain rfl : z.1 = y := Option.some.inj hy
        have hz := hrest z List.mem_cons_self
        have hcode : 0 + k.tcnt z.1 = z.2 := hrest'.lagged.1
        show k.tcnt z.1 ≠ 0
        omega

/-- The loop of `sysTimerTick` goes through the timers that are due. -/
theorem Listed.tick_loop {due rest : List (Fin n × Nat)} (h : Listed k (due ++ rest))
    (hdue : ∀ y ∈ due, y.2 = 0) (hrest : ∀ y ∈ rest, 0 < y.2)
    (hicnt : ∀ y ∈ due, 0 < k.icnt y.1) {p : Option (Fin n)}
    (hp : ∀ y ∈ due.head?, p = some y.1) (hend : due = [] → ∀ y ∈ p, k.tcnt y ≠ 0) {m : Nat}
    (hm : due.length < m) :
    ∃ k' l', Timers.tick_loop m k p = some (k', due.map Prod.fst) ∧ Listed k' l' ∧
      k'.type = k.type ∧ k'.icnt = k.icnt ∧
      (∀ y, k'.state y =
        if y ∈ due.map Prod.fst ∧ k.type y ≠ .osTimerPeriodic then .osTimerStopped else k.state y) ∧
      ∀ z, z ∈ l' ↔ z ∈ rest ∨
        z.1 ∈ due.map Prod.fst ∧ k.type z.1 = .osTimerPeriodic ∧ z.2 = k.icnt z.1 := by
  obtain ⟨m, rfl⟩ := Nat.exists_eq_succ_of_ne_zero (Nat.ne_of_gt (Nat.zero_lt_of_lt hm))
  induction due generalizing k rest p m with
  | nil =>
    refine ⟨k, rest, ?_, h, rfl, rfl, by simp, by simp⟩
    cases p with
    | none => rfl
    | some y => exact if_neg (hend rfl y rfl)
  | cons x due ih =>
    obtain ⟨x, t⟩ := x
    obtain ⟨hx, hdue'⟩ := List.forall_mem_cons.mp hdue
    obtain ⟨hix, hicnt'⟩ := List.forall_mem_cons.mp hicnt
    obtain rfl : t = 0 := hx
    obtain rfl : p = some x := hp (x, 0) rfl
    have hm' := Nat.lt_of_succ_lt_succ hm
    obtain ⟨m, rfl⟩ := Nat.exists_eq_succ_of_ne_zero (Nat.ne_of_gt (Nat.zero_lt_of_lt hm'))
    have hfirst : k.next x = ((due ++ rest).map Prod.fst).head? := h.starts.2.starts.head
    have hcode : k.tcnt x = 0 := by
      have hsum : 0 + k.tcnt x = 0 := h.lagged.1
      omega
    obtain ⟨k₁, rest₁, hreload, hlisted, htype, hcount, hstate, hmem, hstop⟩ := h.reload hdue' hrest
    have hrest₁ : ∀ y ∈ rest₁, 0 < y.2 := by
      intro y hy
      rcases (hmem y).mp hy with hy | ⟨-, rfl⟩
      · exact hrest y hy
      · exact hix
    have hp₁ : ∀ y ∈ due.head?, k.next x = some y.1 := by
      intro y hy
      cases due with
      | nil => cases hy
      | cons z due =>
        obtain rfl : z = y := Option.some.inj hy
        exact hfirst
    obtain ⟨k₂, l₂, hloop, hlisted₂, htype₂, hcount₂, hstate₂, hmem₂⟩ :=
      ih hlisted hdue' hrest₁ (fun y hy => hcount ▸ hicnt' y hy) hp₁ hstop _ hm'
    refine ⟨k₂, l₂, ?_, hlisted₂, htype₂.trans htype, hcount₂.trans hcount, fun y => ?_, fun z => ?_⟩
    · rw [Timers.tick_loop, if_pos hcode]
      refine (congrArg (Option.bind · _) hreload).trans ?_
      rw [Option.bind_some, hloop]
      rfl
    · rw [hstate₂, hstate, htype]
      simp only [List.map_cons, List.mem_cons]
      by_cases hyx : y = x
      · subst hyx
        by_cases hperiodic : k.type y = .osTimerPeriodic
        · simp [hperiodic]
        · simp [hperiodic]
      · refine if_congr (and_congr_left fun _ => (or_iff_right hyx).symm) rfl ?_
        split
        · rfl
        · exact update_of_ne hyx _ _
    · obtain ⟨y, u⟩ := z
      rw [hmem₂, hmem, htype, hcount, List.map_cons, List.mem_cons]
      constructor
      · rintro ((hz | ⟨hperiodic, heq⟩) | ⟨hz, hkept⟩)
        · exact .inl hz
        · obtain ⟨rfl, rfl⟩ := Prod.mk.inj heq
          exact .inr ⟨.inl rfl, hperiodic, rfl⟩
        · exact .inr ⟨.inr hz, hkept⟩
      · rintro (hz | ⟨heq | hz, hperiodic, hu⟩)
        · exact .inl (.inl hz)
        · obtain rfl : y = x := heq
          obtain rfl : u = k.icnt y := hu
          exact .inl (.inr ⟨hperiodic, rfl⟩)
        · exact .inr ⟨hz, hperiodic, hu⟩

end Rtx
