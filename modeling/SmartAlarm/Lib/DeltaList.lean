-- SUMMARY: Delta lists: entries with a time to go, stored as the differences from one entry to the next.
import SmartAlarm.Lib.Linked
import Mathlib.Data.List.TakeWhile

/-!
# Delta lists

A list of entries in the order of the times they are due at. What is stored with
an entry is not its own time but how much later the next one is due, and with
the last one 0. An entry in front, with time 0, stands for the header. Lists
without a header store with an entry how much later it is due than the one before.
-/

namespace DeltaList

variable {α : Type*} {delta delta' : α → Nat} {c x : α × Nat} {l r : List (α × Nat)} {t : Nat}

/-- `delta` stores the times of the list behind `c`. -/
def Coded (delta : α → Nat) : α × Nat → List (α × Nat) → Prop
  | c, []     => delta c.1 = 0
  | c, x :: l => delta c.1 + c.2 = x.2 ∧ Coded delta x l

@[simp] theorem coded_nil : Coded delta c [] ↔ delta c.1 = 0 := Iff.rfl
@[simp] theorem coded_cons :
    Coded delta c (x :: l) ↔ delta c.1 + c.2 = x.2 ∧ Coded delta x l := Iff.rfl

/-- In the order of their times. -/
def Timely (l : List (α × Nat)) : Prop := l.Pairwise fun a b => a.2 ≤ b.2

/-- An entry is put before those that are due at the same time. -/
def insert (x : α × Nat) (l : List (α × Nat)) : List (α × Nat) :=
  l.takeWhile (fun y => y.2 < x.2) ++ x :: l.dropWhile (fun y => y.2 < x.2)

theorem insert_perm (x : α × Nat) (l : List (α × Nat)) : (insert x l).Perm (x :: l) := by
  refine List.perm_middle.trans (List.Perm.cons x ?_)
  rw [List.takeWhile_append_dropWhile]

theorem mem_insert {y : α × Nat} : y ∈ insert x l ↔ y = x ∨ y ∈ l := by
  rw [(insert_perm x l).mem_iff, List.mem_cons]

theorem insert_cons_of_lt {y : α × Nat} (h : y.2 < x.2) : insert x (y :: l) = y :: insert x l := by
  simp [insert, h]

theorem insert_cons_of_le {y : α × Nat} (h : x.2 ≤ y.2) : insert x (y :: l) = x :: y :: l := by
  simp [insert, h.not_gt]

/-- One step less to go for every entry. -/
def tick (l : List (α × Nat)) : List (α × Nat) := l.map fun y => (y.1, y.2 - 1)

theorem map_fst_tick (l : List (α × Nat)) : (tick l).map Prod.fst = l.map Prod.fst := by
  simp [tick]

/-! ## Times -/

theorem Timely.insert (h : Timely l) (x : α × Nat) : Timely (insert x l) := by
  induction l with
  | nil => exact List.pairwise_singleton _ _
  | cons y l ih =>
    obtain ⟨hy, hl⟩ := List.pairwise_cons.mp h
    by_cases hlt : y.2 < x.2
    · rw [insert_cons_of_lt hlt]
      refine List.pairwise_cons.mpr ⟨fun z hz => ?_, ih hl⟩
      rcases mem_insert.mp hz with rfl | hz
      · exact hlt.le
      · exact hy z hz
    · rw [insert_cons_of_le (not_lt.mp hlt)]
      refine List.pairwise_cons.mpr ⟨fun z hz => ?_, h⟩
      rcases List.mem_cons.mp hz with rfl | hz
      · exact not_lt.mp hlt
      · exact (not_lt.mp hlt).trans (hy z hz)

theorem Timely.tick (h : Timely l) : Timely (tick l) :=
  List.pairwise_map.mpr (h.imp fun hle => Nat.sub_le_sub_right hle 1)

/-- Behind the entries that are due, every time is still to come. -/
theorem Timely.pos_of_mem_dropWhile (h : Timely l) {z : α × Nat}
    (hz : z ∈ l.dropWhile fun y => y.2 = 0) : 0 < z.2 := by
  induction l with
  | nil => cases hz
  | cons w l ih =>
    obtain ⟨hw, hl⟩ := List.pairwise_cons.mp h
    by_cases hdue : w.2 = 0
    · rw [List.dropWhile_cons_of_pos (by simpa using hdue)] at hz
      exact ih hl hz
    · rw [List.dropWhile_cons_of_neg (by simpa using hdue)] at hz
      rcases List.mem_cons.mp hz with rfl | hz
      · exact Nat.pos_of_ne_zero hdue
      · exact (Nat.pos_of_ne_zero hdue).trans_le (hw z hz)

/-- All entries that are due stand in front. -/
theorem Timely.mem_takeWhile (h : Timely l) {z : α × Nat} (hz : z ∈ l) (hdue : z.2 = 0) :
    z ∈ l.takeWhile fun y => y.2 = 0 := by
  rw [← List.takeWhile_append_dropWhile (p := fun y : α × Nat => y.2 = 0) (l := l), List.mem_append] at hz
  exact hz.resolve_right fun hrest => (h.pos_of_mem_dropWhile hrest).ne' hdue

theorem Coded.timely (h : Coded delta c l) : Timely (c :: l) := by
  induction l generalizing c with
  | nil => exact List.pairwise_singleton _ _
  | cons x l ih =>
    obtain ⟨hx, hl⟩ := h
    have hle : c.2 ≤ x.2 := hx ▸ Nat.le_add_left _ _
    have hrest := ih hl
    refine List.pairwise_cons.mpr ⟨fun y hy => ?_, hrest⟩
    rcases List.mem_cons.mp hy with rfl | hy
    · exact hle
    · exact hle.trans ((List.pairwise_cons.mp hrest).1 y hy)

/-! ## What is stored -/

theorem Coded.congr (h : Coded delta c l) (heq : ∀ y ∈ c :: l, delta' y.1 = delta y.1) :
    Coded delta' c l := by
  induction l generalizing c with
  | nil => exact (heq c List.mem_cons_self).trans h
  | cons x l ih =>
    obtain ⟨hx, hl⟩ := h
    refine ⟨?_, ih hl fun y hy => heq y (List.mem_cons_of_mem c hy)⟩
    rw [heq c List.mem_cons_self]
    exact hx

theorem Coded.append (h : Coded delta c (l ++ r)) : Coded delta (l.getLastD c) r := by
  induction l generalizing c with
  | nil => exact h
  | cons x l ih =>
    rw [List.getLastD_cons]
    exact ih h.2

/-- What is stored with an entry that the list `l` follows. -/
def gap (x : α × Nat) : List (α × Nat) → Nat
  | []     => 0
  | y :: _ => y.2 - x.2

/-- What is stored with the last entry of a part. -/
theorem Coded.getLastD (h : Coded delta c (l ++ r)) :
    delta (l.getLastD c).1 = gap (l.getLastD c) r := by
  have hrest := h.append
  cases r with
  | nil => exact hrest
  | cons y r => exact Nat.eq_sub_of_add_eq hrest.1

/-- The record that a part of a list ends with, and the header if it is empty. -/
theorem getLastD_map_fst (l : List (α × Nat)) (c : α × Nat) :
    (l.map Prod.fst).getLastD c.1 = (l.getLastD c).1 := by
  induction l generalizing c with
  | nil => rfl
  | cons x l ih => rw [List.map_cons, List.getLastD_cons, List.getLastD_cons, ih]

/-- An entry goes behind a part that is due earlier. -/
theorem insert_append (h : ∀ y ∈ l, y.2 < x.2) : insert x (l ++ r) = l ++ insert x r := by
  have hall : ∀ y ∈ l, decide (y.2 < x.2) = true := fun y hy => decide_eq_true (h y hy)
  rw [insert, List.takeWhile_append_of_pos hall, List.dropWhile_append_of_pos hall,
    List.append_assoc]
  rfl

/-- A step takes as much from every time as from the time of the entry in front. -/
theorem Coded.pred (h : Coded delta x l) (hx : 0 < x.2) : Coded delta (x.1, x.2 - 1) (tick l) := by
  induction l generalizing x with
  | nil => exact h
  | cons y l ih =>
    obtain ⟨hy, hl⟩ := h
    have hpos : 0 < y.2 := hy ▸ Nat.lt_of_lt_of_le hx (Nat.le_add_left _ _)
    refine ⟨?_, ih hl hpos⟩
    dsimp only
    omega

section

variable [DecidableEq α]

theorem Coded.update_of_notMem (h : Coded delta c l) {a : α} (ha : a ∉ (c :: l).map Prod.fst)
    (v : Nat) : Coded (Function.update delta a v) c l :=
  h.congr fun y hy => Function.update_of_ne
    (fun heq : y.1 = a => ha (heq ▸ List.mem_map_of_mem hy)) _ _

/-- An entry `x` behind the part `l`, before `r`. -/
theorem Coded.insert (h : Coded delta c (l ++ r)) (hnodup : ((c :: (l ++ r)).map Prod.fst).Nodup)
    (hx : x.1 ∉ (c :: (l ++ r)).map Prod.fst) (hlow : (l.getLastD c).2 ≤ x.2)
    (hhigh : ∀ y ∈ r.head?, x.2 ≤ y.2) :
    Coded (Function.update (Function.update delta x.1 (gap x r)) (l.getLastD c).1
      (x.2 - (l.getLastD c).2)) c (l ++ x :: r) := by
  induction l generalizing c with
  | nil =>
    rw [List.getLastD_nil] at hlow ⊢
    have hxc : x.1 ≠ c.1 := fun heq => hx (heq ▸ List.mem_cons_self)
    refine ⟨?_, ?_⟩
    · rw [Function.update_self]
      exact Nat.sub_add_cancel hlow
    · have hself : Function.update (Function.update delta x.1 (gap x r)) c.1 (x.2 - c.2) x.1 =
          gap x r := by
        rw [Function.update_of_ne hxc, Function.update_self]
      have hframe : ∀ y ∈ r, Function.update (Function.update delta x.1 (gap x r)) c.1
          (x.2 - c.2) y.1 = delta y.1 := by
        intro y hy
        have hyr : y.1 ∈ r.map Prod.fst := List.mem_map_of_mem hy
        have hyc : y.1 ≠ c.1 := fun heq => (List.nodup_cons.mp hnodup).1 (heq ▸ hyr)
        have hyx : y.1 ≠ x.1 := fun heq => hx (heq ▸ List.mem_cons_of_mem _ hyr)
        rw [Function.update_of_ne hyc, Function.update_of_ne hyx]
      cases r with
      | nil => exact hself
      | cons y r =>
        refine ⟨?_, Coded.congr h.2 hframe⟩
        rw [hself]
        exact Nat.sub_add_cancel (hhigh y rfl)
  | cons y l ih =>
    obtain ⟨hc, hnodup'⟩ := List.nodup_cons.mp hnodup
    obtain ⟨hy, hrest⟩ := h
    rw [List.getLastD_cons] at hlow ⊢
    have hlast : (l.getLastD y).1 ≠ c.1 := by
      intro heq
      have hmem : l.getLastD y ∈ y :: (l ++ r) :=
        List.mem_append_left _ (Linked.getLastD_mem l y)
      exact hc (heq ▸ List.mem_map_of_mem hmem)
    have hxc : x.1 ≠ c.1 := fun heq => hx (heq ▸ List.mem_cons_self)
    refine ⟨?_, ih hrest hnodup' (fun hmem => hx (List.mem_cons_of_mem _ hmem)) hlow⟩
    rw [Function.update_of_ne hlast.symm, Function.update_of_ne hxc.symm]
    exact hy

/-- One step is taken from what the header stores. -/
theorem Coded.tick (h : Coded delta (c.1, 0) (x :: l)) (hx : 0 < x.2)
    (hc : c.1 ∉ (x :: l).map Prod.fst) :
    Coded (Function.update delta c.1 (delta c.1 - 1)) (c.1, 0) (tick (x :: l)) := by
  obtain ⟨hfirst, hrest⟩ := h
  refine ⟨?_, (hrest.pred hx).congr fun y hy => Function.update_of_ne (fun heq => hc ?_) _ _⟩
  · rw [Function.update_self]
    dsimp only at hfirst ⊢
    omega
  · rw [← heq]
    rcases List.mem_cons.mp hy with rfl | hy
    · exact List.mem_cons_self
    · refine List.mem_cons_of_mem _ ?_
      rw [← map_fst_tick]
      exact List.mem_map_of_mem hy

/-- The entry `x` is taken out behind the part `l`. -/
theorem Coded.remove (h : Coded delta c (l ++ x :: r))
    (hnodup : ((c :: (l ++ x :: r)).map Prod.fst).Nodup) :
    Coded (Function.update delta (l.getLastD c).1
      (if r = [] then 0 else delta (l.getLastD c).1 + delta x.1)) c (l ++ r) := by
  induction l generalizing c with
  | nil =>
    obtain ⟨hx, hrest⟩ := h
    rw [List.getLastD_nil]
    have hc := (List.nodup_cons.mp hnodup).1
    cases r with
    | nil => exact Function.update_self _ _ _
    | cons y r =>
      refine ⟨?_, Coded.congr hrest.2 fun z hz => Function.update_of_ne (fun heq => hc ?_) _ _⟩
      · have hy := hrest.1
        rw [Function.update_self, if_neg (by simp)]
        omega
      · have hmem : z.1 ∈ (x :: y :: r).map Prod.fst := List.mem_map_of_mem (List.mem_cons_of_mem x hz)
        exact heq ▸ hmem
  | cons y l ih =>
    obtain ⟨hc, hnodup'⟩ := List.nodup_cons.mp hnodup
    obtain ⟨hy, hrest⟩ := h
    rw [List.getLastD_cons]
    have hlast : (l.getLastD y).1 ≠ c.1 := by
      intro heq
      have hmem : l.getLastD y ∈ y :: (l ++ x :: r) :=
        List.mem_append_left _ (Linked.getLastD_mem l y)
      exact hc (heq ▸ List.mem_map_of_mem hmem)
    refine ⟨?_, ih hrest hnodup'⟩
    rw [Function.update_of_ne hlast.symm]
    exact hy

end

/-! ## Differences to the entry before -/

/-- `delta` stores the times of the list behind the time `t`. -/
def Lagged (delta : α → Nat) : Nat → List (α × Nat) → Prop
  | _, []     => True
  | t, x :: l => t + delta x.1 = x.2 ∧ Lagged delta x.2 l

/-- The time of the last entry of a part behind the time `t`. -/
def lastTime : Nat → List (α × Nat) → Nat
  | t, []     => t
  | _, x :: l => lastTime x.2 l

theorem Lagged.congr (h : Lagged delta t l) (heq : ∀ y ∈ l, delta' y.1 = delta y.1) : Lagged delta' t l := by
  induction l generalizing t with
  | nil => trivial
  | cons x l ih =>
    refine ⟨?_, ih h.2 fun y hy => heq y (List.mem_cons_of_mem x hy)⟩
    rw [heq x List.mem_cons_self]
    exact h.1

theorem Lagged.le (h : Lagged delta t l) : ∀ y ∈ l, t ≤ y.2 := by
  induction l generalizing t with
  | nil => exact fun y hy => absurd hy List.not_mem_nil
  | cons x l ih =>
    have hx : t ≤ x.2 := h.1 ▸ Nat.le_add_right _ _
    intro y hy
    rcases List.mem_cons.mp hy with rfl | hy
    · exact hx
    · exact hx.trans (ih h.2 y hy)

theorem Lagged.timely (h : Lagged delta t l) : Timely l := by
  induction l generalizing t with
  | nil => exact List.Pairwise.nil
  | cons x l ih => exact List.pairwise_cons.mpr ⟨h.2.le, ih h.2⟩

theorem lastTime_le {d : Nat} (hl : ∀ y ∈ l, y.2 ≤ d) (ht : t ≤ d) : lastTime t l ≤ d := by
  induction l generalizing t with
  | nil => exact ht
  | cons x l ih =>
    obtain ⟨hx, hrest⟩ := List.forall_mem_cons.mp hl
    exact ih hrest hx

theorem Lagged.append (h : Lagged delta t (l ++ r)) : Lagged delta (lastTime t l) r := by
  induction l generalizing t with
  | nil => exact h
  | cons x l ih => exact ih h.2

/-- The time `d` passes for every entry. -/
def elapse (d : Nat) (l : List (α × Nat)) : List (α × Nat) := l.map fun y => (y.1, y.2 - d)

theorem map_fst_elapse (d : Nat) (l : List (α × Nat)) : (elapse d l).map Prod.fst = l.map Prod.fst := by
  simp [elapse]

theorem Lagged.elapse_tail (h : Lagged delta t l) {d : Nat} (hd : d ≤ t) :
    Lagged delta (t - d) (elapse d l) := by
  induction l generalizing t with
  | nil => trivial
  | cons x l ih =>
    have hx := h.1
    refine ⟨?_, ih h.2 (by omega)⟩
    dsimp only
    omega

section

variable [DecidableEq α]

theorem Lagged.update_of_notMem (h : Lagged delta t l) {a : α} (ha : a ∉ l.map Prod.fst) (v : Nat) :
    Lagged (Function.update delta a v) t l :=
  h.congr fun y hy => Function.update_of_ne
    (fun heq : y.1 = a => ha (heq ▸ List.mem_map_of_mem hy)) _ _

/-- What is stored with the first entry of a part is changed. -/
def atHead (delta : α → Nat) (l : List (α × Nat)) (f : Nat → Nat) : α → Nat :=
  match l with
  | []     => delta
  | x :: _ => Function.update delta x.1 (f (delta x.1))

theorem atHead_of_notMem {a : α} (ha : a ∉ l.map Prod.fst) (f : Nat → Nat) :
    atHead delta l f a = delta a := by
  cases l with
  | nil => rfl
  | cons x l =>
    refine Function.update_of_ne (fun heq => ha ?_) _ _
    rw [heq]
    exact List.mem_cons_self

/-- An entry `x` behind the part `l`, before `r`. -/
theorem Lagged.insert (h : Lagged delta t (l ++ r)) (hnodup : ((l ++ r).map Prod.fst).Nodup)
    (hx : x.1 ∉ (l ++ r).map Prod.fst) (hlow : lastTime t l ≤ x.2) (hhigh : ∀ y ∈ r.head?, x.2 ≤ y.2) :
    Lagged (atHead (Function.update delta x.1 (x.2 - lastTime t l)) r (· - (x.2 - lastTime t l))) t
      (l ++ x :: r) := by
  induction l generalizing t with
  | nil =>
    rw [lastTime] at hlow ⊢
    have hout : x.1 ∉ r.map Prod.fst := hx
    refine ⟨?_, ?_⟩
    · rw [atHead_of_notMem hout, Function.update_self]
      omega
    · cases r with
      | nil => trivial
      | cons y r =>
        have hyx : y.1 ≠ x.1 := fun heq => hx (heq ▸ List.mem_cons_self)
        have hxr : x.1 ∉ r.map Prod.fst := fun hmem => hx (List.mem_cons_of_mem _ hmem)
        refine ⟨?_, (h.2.update_of_notMem hxr _).update_of_notMem (List.nodup_cons.mp hnodup).1 _⟩
        have hy := h.1
        have hle := hhigh y rfl
        rw [atHead, Function.update_self, Function.update_of_ne hyx]
        omega
  | cons y l ih =>
    obtain ⟨hy, hnodup'⟩ := List.nodup_cons.mp hnodup
    have hyr : y.1 ∉ r.map Prod.fst := fun hmem => hy (by simp [hmem])
    have hyx : y.1 ≠ x.1 := fun heq => hx (heq ▸ List.mem_cons_self)
    refine ⟨?_, ih h.2 hnodup' (fun hmem => hx (List.mem_cons_of_mem _ hmem)) hlow⟩
    rw [atHead_of_notMem hyr, Function.update_of_ne hyx]
    exact h.1

/-- The entry `x` is taken out behind the part `l`. -/
theorem Lagged.remove (h : Lagged delta t (l ++ x :: r)) (hnodup : ((l ++ x :: r).map Prod.fst).Nodup) :
    Lagged (atHead delta r (· + delta x.1)) t (l ++ r) := by
  induction l generalizing t with
  | nil =>
    cases r with
    | nil => trivial
    | cons y r =>
      have hy : y.1 ∉ r.map Prod.fst := (List.nodup_cons.mp (List.nodup_cons.mp hnodup).2).1
      refine ⟨?_, h.2.2.update_of_notMem hy _⟩
      have hfirst := h.1
      have hsecond := h.2.1
      rw [atHead, Function.update_self]
      omega
  | cons y l ih =>
    obtain ⟨hy, hnodup'⟩ := List.nodup_cons.mp hnodup
    have hyr : y.1 ∉ r.map Prod.fst := fun hmem => hy (by simp [hmem])
    refine ⟨?_, ih h.2 hnodup'⟩
    rw [atHead_of_notMem hyr]
    exact h.1

/-- Time that passes is taken from what the first entry stores. -/
theorem Lagged.elapse (h : Lagged delta 0 (x :: l)) (hx : x.1 ∉ l.map Prod.fst) {d : Nat} (hd : d ≤ x.2) :
    Lagged (Function.update delta x.1 (x.2 - d)) 0 (elapse d (x :: l)) := by
  refine ⟨?_, ?_⟩
  · rw [Function.update_self, Nat.zero_add]
  · refine (h.2.elapse_tail hd).update_of_notMem ?_ _
    rwa [map_fst_elapse]

end

end DeltaList
