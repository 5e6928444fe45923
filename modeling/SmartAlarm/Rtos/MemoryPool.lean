-- SUMMARY: The records of the memory pool: their order, the holes between them, and how a call changes them.
import SmartAlarm.Rtos.Memory
import Mathlib.Data.List.Pairwise
import Mathlib.Data.List.Perm.Subperm

/-!
# The records of the pool

The records stand in the order of their addresses, and no block reaches into the next
record. Taking a block puts a record into a hole, and giving it back takes the record
out again, so the order is kept and the holes grow together.
-/

namespace Rtx

open Function

variable {m m' : Mem} {pool stop p q x size k : Nat} {a b l r : List Nat}

/-- The record `q` stands behind the block of `p`. -/
def Behind (len : Nat → Nat) (p q : Nat) : Prop := p < q ∧ p + len p ≤ q

/-- The records of the pool: one where it begins, those of `l`, and the link at its end. -/
structure Laid (m : Mem) (pool stop : Nat) (l : List Nat) : Prop where
  chain : Linked.Chain m.next pool (l ++ [stop])
  spaced : (pool :: (l ++ [stop])).Pairwise (Behind m.len)
  used : ∀ p ∈ l, m.len p ≠ 0
  long : ∀ p ∈ pool :: l, m.len p ≠ 0 → 8 ≤ m.len p
  aligned : ∀ p ∈ pool :: l, p % 4 = pool % 4 ∧ m.len p % 4 = 0
  room : pool + 4 ≤ stop
  limit : stop + 4 ≤ 4294967296

namespace Laid

theorem nodup (h : Laid m pool stop l) : (pool :: (l ++ [stop])).Nodup :=
  h.spaced.imp fun hpq => Nat.ne_of_lt hpq.1

theorem le_stop (h : Laid m pool stop l) (hp : p ∈ pool :: l) : p < stop ∧ p + m.len p ≤ stop := by
  have hspaced := h.spaced
  rw [← List.cons_append, List.pairwise_append] at hspaced
  exact hspaced.2.2 p hp stop List.mem_cons_self

theorem pool_le (h : Laid m pool stop l) (hp : p ∈ pool :: l) : pool ≤ p := by
  rcases List.mem_cons.mp hp with rfl | hp
  · exact Nat.le_refl p
  · exact Nat.le_of_lt ((List.pairwise_cons.mp h.spaced).1 p (List.mem_append_left _ hp)).1

theorem behind_or (h : Laid m pool stop l) (hp : p ∈ pool :: l) (hq : q ∈ pool :: l) (hpq : p ≠ q) :
    Behind m.len p q ∨ Behind m.len q p := by
  have hspaced := h.spaced
  rw [← List.cons_append, List.pairwise_append] at hspaced
  have hboth : (pool :: l).Pairwise fun x y => Behind m.len x y ∨ Behind m.len y x :=
    hspaced.1.imp fun hxy => .inl hxy
  have : Std.Symm fun x y => Behind m.len x y ∨ Behind m.len y x := ⟨fun _ _ => Or.symm⟩
  exact hboth.forall hp hq hpq

/-- There are not more records than addresses. -/
theorem length_lt (h : Laid m pool stop l) : l.length + 1 < 4294967296 := by
  have hsubset : pool :: (l ++ [stop]) ⊆ List.range 4294967296 := by
    intro p hp
    have hlimit := h.limit
    rw [List.mem_range]
    rcases List.mem_append.mp (List.cons_append ▸ hp) with hp | hp
    · have hlt := (h.le_stop hp).1
      omega
    · obtain rfl := List.mem_singleton.mp hp
      omega
  have hle := (List.subperm_of_subset h.nodup hsubset).length_le
  rw [List.length_range, List.length_cons, List.length_append, List.length_singleton] at hle
  omega

end Laid

/-! ## The holes -/

theorem hole_size_eq (hnext : m.next p = some q) (hbehind : Behind m.len p q) (hq : q < 4294967296) :
    m.hole_size p = q - (p + m.len p) := by
  obtain ⟨hlt, hle⟩ := hbehind
  rw [Mem.hole_size, hnext, Option.getD_some, u32, u32]
  omega

/-- The loop of `rt_alloc_mem` stops at the first hole that is large enough. -/
theorem alloc_loop_eq (size : Nat) (hchain : Linked.Chain m.next p (r ++ [stop])) (hstop : m.next stop = none)
    (hused : ∀ x ∈ r, m.next x ≠ none) (hk : r.length < k) :
    (m.alloc_loop size k p = some none ∧ ∀ x ∈ p :: r, m.hole_size x < size) ∨
      ∃ a b, r = a ++ b ∧ m.alloc_loop size k p = some (some (a.getLastD p)) ∧
        size ≤ m.hole_size (a.getLastD p) := by
  obtain ⟨k, rfl⟩ := Nat.exists_eq_succ_of_ne_zero (Nat.ne_of_gt (Nat.zero_lt_of_lt hk))
  induction r generalizing p k with
  | nil =>
    have hnext : m.next p = some stop := hchain.1
    by_cases hsize : size ≤ m.hole_size p
    · exact .inr ⟨[], [], rfl, if_pos hsize, hsize⟩
    · refine .inl ⟨?_, by simpa using hsize⟩
      rw [Mem.alloc_loop, if_neg hsize, hnext]
      exact if_pos hstop
  | cons y r ih =>
    obtain ⟨hnext, hrest⟩ := hchain
    by_cases hsize : size ≤ m.hole_size p
    · exact .inr ⟨[], y :: r, rfl, if_pos hsize, hsize⟩
    · have hk' := Nat.lt_of_succ_lt_succ hk
      obtain ⟨k, rfl⟩ := Nat.exists_eq_succ_of_ne_zero (Nat.ne_of_gt (Nat.zero_lt_of_lt hk'))
      have hstep : m.alloc_loop size (k + 1 + 1) p = m.alloc_loop size (k + 1) y := by
        rw [Mem.alloc_loop, if_neg hsize, hnext]
        exact if_neg (hused y List.mem_cons_self)
      have hused' : ∀ x ∈ r, m.next x ≠ none := fun x hx => hused x (List.mem_cons_of_mem y hx)
      rcases ih hrest hused' k hk' with ⟨hloop, hsmall⟩ | ⟨a, b, rfl, hloop, hlarge⟩
      · exact .inl ⟨hstep.trans hloop, List.forall_mem_cons.mpr ⟨Nat.not_le.mp hsize, hsmall⟩⟩
      · refine .inr ⟨y :: a, b, rfl, ?_, ?_⟩
        · rw [List.getLastD_cons]
          exact hstep.trans hloop
        · rwa [List.getLastD_cons]

/-- The loop of `rt_free_mem` finds a record that is in the list, with the one before it. -/
theorem free_loop_eq (prev : Option Nat) (hchain : Linked.Chain m.next p (r ++ [stop])) (hx : x ≠ stop)
    (hk : r.length + 1 < k) :
    (x ∉ p :: r ∧ m.free_loop x k prev p = some none) ∨ (x = p ∧ m.free_loop x k prev p = some (some prev)) ∨
      ∃ a b, r = a ++ x :: b ∧ m.free_loop x k prev p = some (some (some (a.getLastD p))) := by
  obtain ⟨k, rfl⟩ := Nat.exists_eq_succ_of_ne_zero (Nat.ne_of_gt (Nat.zero_lt_of_lt hk))
  by_cases hp : p = x
  · exact .inr (.inl ⟨hp.symm, if_pos hp⟩)
  have hk' := Nat.lt_of_succ_lt_succ hk
  obtain ⟨k, rfl⟩ := Nat.exists_eq_succ_of_ne_zero (Nat.ne_of_gt (Nat.zero_lt_of_lt hk'))
  induction r generalizing p k prev with
  | nil =>
    obtain ⟨hnext, hend⟩ := hchain
    refine .inl ⟨by simpa using Ne.symm hp, ?_⟩
    rw [Mem.free_loop, if_neg hp, hnext]
    dsimp only
    rw [Mem.free_loop, if_neg hx.symm]
    rw [show m.next stop = none from hend]
  | cons y r ih =>
    obtain ⟨hnext, hrest⟩ := hchain
    have hstep : m.free_loop x (k + 1 + 1) prev p = m.free_loop x (k + 1) (some p) y := by
      rw [Mem.free_loop, if_neg hp, hnext]
    rw [hstep]
    by_cases hy : y = x
    · subst hy
      exact .inr (.inr ⟨[], r, rfl, if_pos rfl⟩)
    · have hk'' := Nat.lt_of_succ_lt_succ hk'
      obtain ⟨k, rfl⟩ := Nat.exists_eq_succ_of_ne_zero (Nat.ne_of_gt (Nat.zero_lt_of_lt hk''))
      rcases ih (some p) hrest hy k hk' hk'' with
        ⟨hout, hloop⟩ | ⟨heq, -⟩ | ⟨a, b, rfl, hloop⟩
      · exact .inl ⟨List.not_mem_cons_of_ne_of_not_mem (Ne.symm hp) hout, hloop⟩
      · exact absurd heq.symm hy
      · exact .inr (.inr ⟨y :: a, b, rfl, by rw [List.getLastD_cons]; exact hloop⟩)

/-! ## A place in the list -/

namespace Laid

/-- The records up to `a` end with the last one of `a`. -/
theorem before (h : Laid m pool stop (a ++ b)) (hx : x ∈ pool :: a) :
    x = a.getLastD pool ∨ Behind m.len x (a.getLastD pool) := by
  have hspaced := h.spaced
  rw [List.append_assoc, ← List.cons_append, List.pairwise_append] at hspaced
  rcases List.eq_nil_or_concat' a with rfl | ⟨a, y, rfl⟩
  · exact .inl (List.mem_singleton.mp hx)
  · rw [List.getLastD_concat]
    have hleft := hspaced.1
    rw [← List.cons_append, List.pairwise_append] at hleft
    rw [← List.cons_append] at hx
    rcases List.mem_append.mp hx with hx | hx
    · exact .inr (hleft.2.2 x hx y List.mem_cons_self)
    · exact .inl (List.mem_singleton.mp hx)

/-- The hole behind the last record of `a` ends at the next record. -/
theorem behind (h : Laid m pool stop (a ++ b)) : ∃ q, m.next (a.getLastD pool) = some q ∧
    m.hole_size (a.getLastD pool) = q - (a.getLastD pool + m.len (a.getLastD pool)) ∧
    Behind m.len (a.getLastD pool) q ∧ ∀ y ∈ b ++ [stop], q ≤ y := by
  have hspaced := h.spaced
  have hchain := h.chain
  rw [List.append_assoc] at hspaced hchain
  have hnext := hchain.next_getLastD
  rw [← List.cons_append, List.pairwise_append] at hspaced
  obtain ⟨-, hright, hcross⟩ := hspaced
  obtain ⟨q, rest, hq⟩ := List.exists_cons_of_ne_nil (List.concat_ne_nil stop b)
  rw [hq, List.head?_cons] at hnext
  have hbehind := hcross _ (Linked.getLastD_mem a pool) q (hq ▸ List.mem_cons_self)
  have hle : ∀ y ∈ b ++ [stop], q ≤ y := by
    rw [hq] at hright ⊢
    exact List.forall_mem_cons.mpr
      ⟨Nat.le_refl q, fun y hy => Nat.le_of_lt ((List.pairwise_cons.mp hright).1 y hy).1⟩
  have hlimit := h.limit
  have hstop := hle stop (List.mem_append_right _ List.mem_cons_self)
  exact ⟨q, hnext, hole_size_eq hnext hbehind (by omega), hbehind, hle⟩

end Laid

/-- A block at `p` that was not there before. -/
structure Taken (m : Mem) (pool : Nat) (l : List Nat) (m' : Mem) (l' : List Nat) (p size : Nat) : Prop where
  mem : p ∈ pool :: l'
  len : m'.len p = size
  fresh : p ∈ pool :: l → m.len p = 0
  other : ∀ x, x ≠ p → (x ∈ pool :: l' ↔ x ∈ pool :: l) ∧ m'.len x = m.len x

/-- The record at the beginning of the pool gets another length. -/
theorem Laid.first (h : Laid m pool stop l) (hnext : m'.next = m.next) (hlen : m'.len pool = size)
    (hframe : ∀ x, x ≠ pool → m'.len x = m.len x) (hsize : size ≠ 0 → 8 ≤ size) (hmod : size % 4 = 0)
    (hfits : ∀ y ∈ l ++ [stop], pool + size ≤ y) : Laid m' pool stop l := by
  obtain ⟨hfirst, hrest⟩ := List.pairwise_cons.mp h.spaced
  have hsame : ∀ y ∈ l ++ [stop], m'.len y = m.len y := fun y hy =>
    hframe y fun heq => Nat.ne_of_lt (hfirst y hy).1 heq.symm
  have hsame' : ∀ y ∈ l, m'.len y = m.len y := fun y hy => hsame y (List.mem_append_left _ hy)
  refine ⟨hnext ▸ h.chain, ?_, fun y hy => ?_, ?_, ?_, h.room, h.limit⟩
  · refine List.pairwise_cons.mpr ⟨fun y hy => ⟨(hfirst y hy).1, ?_⟩, hrest.imp_of_mem fun hy _ hyz => ?_⟩
    · rw [hlen]
      exact hfits y hy
    · rw [Behind, hsame _ hy]
      exact hyz
  · rw [hsame' y hy]
    exact h.used y hy
  · refine List.forall_mem_cons.mpr ⟨fun hne => ?_, fun y hy => ?_⟩
    · rw [hlen] at hne ⊢
      exact hsize hne
    · rw [hsame' y hy]
      exact h.long y (List.mem_cons_of_mem _ hy)
  · refine List.forall_mem_cons.mpr ⟨⟨rfl, hlen ▸ hmod⟩, fun y hy => ?_⟩
    rw [hsame' y hy]
    exact h.aligned y (List.mem_cons_of_mem _ hy)

/-- A record that fits between `a` and `b` keeps the order. -/
theorem pairwise_behind_insert {len len' : Nat → Nat} (h : (a ++ b).Pairwise (Behind len))
    (hframe : ∀ x, x ≠ q → len' x = len x) (hbefore : ∀ x ∈ a, Behind len x q)
    (hbehind : ∀ y ∈ b, Behind len' q y) : (a ++ q :: b).Pairwise (Behind len') := by
  obtain ⟨hleft, hright, hcross⟩ := List.pairwise_append.mp h
  have ha : ∀ x ∈ a, len' x = len x := fun x hx => hframe x (Nat.ne_of_lt (hbefore x hx).1)
  have hb : ∀ y ∈ b, len' y = len y := fun y hy => hframe y (Nat.ne_of_gt (hbehind y hy).1)
  rw [List.pairwise_append, List.pairwise_cons]
  refine ⟨hleft.imp_of_mem fun hx _ hxy => ?_, ⟨hbehind, hright.imp_of_mem fun hy _ hyz => ?_⟩, fun x hx y hy => ?_⟩
  · rw [Behind, ha _ hx]
    exact hxy
  · rw [Behind, hb _ hy]
    exact hyz
  · rw [Behind, ha x hx]
    rcases List.mem_cons.mp hy with rfl | hy
    · exact hbefore x hx
    · exact hcross x hx y hy

/-- A new record, behind the block of the last one of `a`. -/
theorem Laid.insert (h : Laid m pool stop (a ++ b)) (hnext : m'.next = Linked.insertAfter m.next (a.getLastD pool) q)
    (hlen : m'.len q = size) (hframe : ∀ x, x ≠ q → m'.len x = m.len x) (hsize : 8 ≤ size) (hmod : size % 4 = 0)
    (hq : q % 4 = pool % 4) (hbefore : ∀ x ∈ pool :: a, Behind m.len x q)
    (hfits : ∀ y ∈ b ++ [stop], q + size ≤ y) :
    Laid m' pool stop (a ++ q :: b) ∧ q ∉ pool :: (a ++ b) := by
  have hchain := h.chain
  have hnodup := h.nodup
  have hspaced := h.spaced
  rw [List.append_assoc] at hchain hnodup hspaced
  have hleft : ∀ x ∈ pool :: a, x ≠ q := fun x hx => Nat.ne_of_lt (hbefore x hx).1
  have hright : ∀ y ∈ b ++ [stop], y ≠ q := by
    intro y hy heq
    have hle := hfits y hy
    omega
  have hout : q ∉ pool :: (a ++ (b ++ [stop])) := by
    rw [← List.cons_append, List.mem_append]
    rintro (hx | hy)
    · exact hleft q hx rfl
    · exact hright q hy rfl
  have hold : q ∉ pool :: (a ++ b) := by
    intro hq
    rw [← List.append_assoc, ← List.cons_append] at hout
    exact hout (List.mem_append_left _ hq)
  have hnew {x : Nat} (hx : x ∈ pool :: (a ++ q :: b)) : x = q ∨ x ∈ pool :: (a ++ b) ∧ m'.len x = m.len x := by
    have hor : x = q ∨ x ∈ pool :: (a ++ b) := by
      simp only [List.mem_cons, List.mem_append] at hx ⊢
      tauto
    exact hor.imp_right fun hx => ⟨hx, hframe x fun heq => hold (heq ▸ hx)⟩
  refine ⟨⟨?_, ?_, fun x hx => ?_, fun x hx => ?_, fun x hx => ?_, h.room, h.limit⟩, hold⟩
  · have hinsert := hchain.insertAfter hnodup hout
    rwa [hnext, List.append_assoc, List.cons_append]
  · rw [List.append_assoc, List.cons_append, ← List.cons_append]
    refine pairwise_behind_insert hspaced hframe hbefore fun y hy => ?_
    have hle := hfits y hy
    rw [Behind, hlen]
    omega
  · have hor : x = q ∨ x ∈ a ++ b := by
      simp only [List.mem_cons, List.mem_append] at hx ⊢
      tauto
    rcases hor with rfl | hx
    · omega
    · rw [hframe x fun heq => hold (heq ▸ List.mem_cons_of_mem _ hx)]
      exact h.used x hx
  · rcases hnew hx with rfl | ⟨hx, hsame⟩
    · omega
    · rw [hsame]
      exact h.long x hx
  · rcases hnew hx with rfl | ⟨hx, hsame⟩
    · exact ⟨hq, hlen ▸ hmod⟩
    · rw [hsame]
      exact h.aligned x hx

/-- A record other than the first is taken out. -/
theorem Laid.remove (h : Laid m pool stop (a ++ x :: b))
    (hnext : m'.next = Linked.removeAfter m.next (a.getLastD pool) x)
    (hlen : m'.len = m.len) : Laid m' pool stop (a ++ b) ∧ x ∉ pool :: (a ++ b) := by
  have hchain := h.chain
  have hnodup := h.nodup
  have hsub : (pool :: (a ++ b)).Sublist (pool :: (a ++ x :: b)) :=
    ((List.sublist_cons_self x b).append_left a).cons_cons pool
  rw [List.append_assoc, List.cons_append] at hchain hnodup
  refine ⟨⟨?_, ?_, fun y hy => ?_, fun y hy => ?_, fun y hy => ?_, h.room, h.limit⟩, ?_⟩
  · rw [hnext, List.append_assoc]
    exact hchain.removeAfter hnodup
  · rw [hlen]
    exact h.spaced.sublist (hsub.append_right [stop])
  · rw [hlen]
    refine h.used y ?_
    simp only [List.mem_append, List.mem_cons] at hy ⊢
    tauto
  · rw [hlen]
    exact h.long y (hsub.subset hy)
  · rw [hlen]
    exact h.aligned y (hsub.subset hy)
  · rw [← List.cons_append, List.nodup_middle, List.nodup_cons, ← List.append_assoc] at hnodup
    exact fun hx => hnodup.1 (List.mem_append_left _ hx)

/-! ## The calls -/

/-- A block is put into the hole behind the last record of `a`. -/
theorem Laid.take (h : Laid m pool stop (a ++ b)) (hsize : 8 ≤ size) (hmod : size % 4 = 0)
    (hhole : size ≤ m.hole_size (a.getLastD pool)) :
    ∃ m' l' p, m.take (a.getLastD pool) size = (m', some (p + 8)) ∧ Laid m' pool stop l' ∧
      Taken m pool (a ++ b) m' l' p size := by
  obtain ⟨q, hnext, hfree, ⟨hlt, hle⟩, hq⟩ := h.behind
  have hlimit := h.limit
  have hstop := hq stop (List.mem_append_right _ List.mem_cons_self)
  rw [hfree] at hhole
  rw [Mem.take]
  have hlast : a.getLastD pool ∈ pool :: (a ++ b) := by
    rw [← List.cons_append]
    exact List.mem_append_left _ (Linked.getLastD_mem a pool)
  by_cases hlen : m.len (a.getLastD pool) = 0
  · -- Only the first record stands there without a block.
    have hnil : a = [] := by
      rcases List.eq_nil_or_concat' a with rfl | ⟨a, y, rfl⟩
      · rfl
      · rw [List.getLastD_concat] at hlen
        exact absurd hlen (h.used y (by simp))
    subst hnil
    rw [List.getLastD_nil] at *
    have haddr : u32 (pool + 8) = pool + 8 := Nat.mod_eq_of_lt (by omega)
    rw [if_pos hlen, haddr]
    refine ⟨_, [] ++ b, pool, rfl, h.first rfl (update_self _ _ _) (fun x hx => update_of_ne hx _ _)
      (fun _ => hsize) hmod fun y hy => ?_, ?_⟩
    · have hle := hq y hy
      omega
    · exact ⟨List.mem_cons_self, update_self _ _ _, fun _ => hlen,
        fun x hx => ⟨Iff.rfl, update_of_ne hx _ _⟩⟩
  · obtain ⟨hpmod, hlenmod⟩ := h.aligned _ hlast
    generalize hp : a.getLastD pool = p at *
    have hnew : u32 (p + m.len p) = p + m.len p := Nat.mod_eq_of_lt (by omega)
    have haddr : u32 (p + m.len p + 8) = p + m.len p + 8 := Nat.mod_eq_of_lt (by omega)
    rw [if_neg hlen, hnew]
    dsimp only
    rw [haddr]
    have hinsert : Laid ⟨Linked.insertAfter m.next p (p + m.len p), update m.len (p + m.len p) size⟩ pool stop
        (a ++ (p + m.len p) :: b) ∧ p + m.len p ∉ pool :: (a ++ b) := by
      refine h.insert (by rw [hp]) (update_self _ _ _) (fun x hx => update_of_ne hx _ _) hsize hmod (by omega)
        (fun x hx => ?_) fun y hy => ?_
      · rcases h.before hx with hx | ⟨hlt, hle⟩
        · rw [hp] at hx
          subst hx
          exact ⟨by omega, Nat.le_refl _⟩
        · rw [hp] at hlt hle
          exact ⟨by omega, by omega⟩
      · have hle := hq y hy
        omega
    obtain ⟨hlaid, hout⟩ := hinsert
    refine ⟨_, a ++ (p + m.len p) :: b, p + m.len p, rfl, hlaid, ?_, update_self _ _ _, fun hin => absurd hin hout,
      fun x hx => ⟨?_, update_of_ne hx _ _⟩⟩
    · simp
    · simp [hx]

/-- `rt_alloc_mem`. Without a hole that is large enough it returns `NULL`. -/
theorem Laid.alloc (h : Laid m pool stop l) (hsize : size ≠ 0) (hfits : size + 11 < 4294967296) :
    (m.rt_alloc_mem pool size = some (m, none) ∧ ∀ x ∈ pool :: l, m.hole_size x < Mem.whole size) ∨
      ∃ m' l' p, m.rt_alloc_mem pool size = some (m', some (p + 8)) ∧ Laid m' pool stop l' ∧
        Taken m pool l m' l' p (Mem.whole size) := by
  have hwhole : Mem.whole size = (size + 11) / 4 * 4 := by
    rw [Mem.whole, u32, u32]
    omega
  have hlength := h.length_lt
  have hend : m.next stop = none := (Linked.chain_append h.chain).2
  have hused : ∀ x ∈ l, m.next x ≠ none := by
    intro x hx
    obtain ⟨a, b, rfl⟩ := List.append_of_mem hx
    rw [List.append_cons] at h
    obtain ⟨q, hnext, -⟩ := h.behind
    rw [List.getLastD_concat] at hnext
    rw [hnext]
    exact Option.some_ne_none q
  rw [Mem.rt_alloc_mem, if_neg hsize]
  rcases alloc_loop_eq (Mem.whole size) h.chain hend hused (k := 4294967296) (by omega) with
    ⟨hloop, hsmall⟩ | ⟨a, b, rfl, hloop, hlarge⟩
  · refine .inl ⟨?_, hsmall⟩
    rw [hloop]
    rfl
  · obtain ⟨m', l', p, htake, hlaid, htaken⟩ := h.take (by omega) (by omega) hlarge
    refine .inr ⟨m', l', p, ?_, hlaid, htaken⟩
    rw [hloop]
    exact congrArg some htake

/-- The record of `p` has no block any more. -/
structure Freed (m : Mem) (pool : Nat) (l : List Nat) (m' : Mem) (l' : List Nat) (p : Nat) : Prop where
  gone : p ∈ pool :: l' → m'.len p = 0
  other : ∀ x, x ≠ p → (x ∈ pool :: l' ↔ x ∈ pool :: l) ∧ m'.len x = m.len x

/-- The record of a block stands in front of it. -/
theorem record_eq {mem : Nat} (hmem : mem < 4294967296) (hzero : mem ≠ 0) (hp : p + 8 ≤ 4294967296) :
    mem = p + 8 ↔ u32 (mem + 4294967288) = p := by
  rw [u32]
  omega

theorem Laid.add_le (h : Laid m pool stop l) (hp : p ∈ pool :: l) : p + 8 ≤ 4294967296 := by
  have hroom := h.room
  have hlimit := h.limit
  obtain ⟨hlt, hle⟩ := h.le_stop hp
  rcases List.mem_cons.mp hp with rfl | hin
  · omega
  · have hlong := h.long p hp (h.used p hin)
    omega

/-- What `rt_free_mem` does with any address but that of the link at the end. -/
theorem Laid.give_back (h : Laid m pool stop l) (hx : x ≠ stop) (hk : l.length + 1 < k) :
    ((m.free_loop x k none pool).map (m.give_back x) = some (m, false) ∧ x ∉ pool :: l) ∨
      ∃ m' l', (m.free_loop x k none pool).map (m.give_back x) = some (m', true) ∧ x ∈ pool :: l ∧
        Laid m' pool stop l' ∧ Freed m pool l m' l' x := by
  rcases free_loop_eq none h.chain hx hk with ⟨hout, hloop⟩ | ⟨rfl, hloop⟩ | ⟨a, b, rfl, hloop⟩
  · rw [hloop]
    exact .inl ⟨rfl, hout⟩
  · have hlaid : Laid { m with len := update m.len x 0 } x stop l := by
      refine h.first rfl (update_self _ _ _) (fun y hy => update_of_ne hy _ _) (by simp) rfl fun y hy => ?_
      exact Nat.le_of_lt ((List.pairwise_cons.mp h.spaced).1 y hy).1
    rw [hloop]
    exact .inr ⟨{ m with len := update m.len x 0 }, l, rfl, List.mem_cons_self, hlaid,
      fun _ => update_self _ _ _, fun y hy => ⟨Iff.rfl, update_of_ne hy _ _⟩⟩
  · have hremove : Laid { m with next := Linked.removeAfter m.next (a.getLastD pool) x } pool stop (a ++ b) ∧
        x ∉ pool :: (a ++ b) := h.remove rfl rfl
    obtain ⟨hlaid, hout⟩ := hremove
    rw [hloop]
    refine .inr ⟨{ m with next := Linked.removeAfter m.next (a.getLastD pool) x }, a ++ b, rfl, by simp, hlaid,
      fun hx => absurd hx hout, fun y hy => ⟨?_, rfl⟩⟩
    simp [hy]

/-- `rt_free_mem` -/
theorem Laid.free (h : Laid m pool stop l) {mem : Nat} (hmem : mem < 4294967296)
    (hstop : u32 (mem + 4294967288) ≠ stop) :
    (m.rt_free_mem pool mem = some (m, false) ∧ ∀ p ∈ pool :: l, mem ≠ p + 8) ∨
      ∃ m' l' p, m.rt_free_mem pool mem = some (m', true) ∧ mem = p + 8 ∧ p ∈ pool :: l ∧
        Laid m' pool stop l' ∧ Freed m pool l m' l' p := by
  rw [Mem.rt_free_mem]
  by_cases hzero : mem = 0
  · rw [if_pos hzero]
    exact .inl ⟨rfl, fun p _ => by omega⟩
  · rw [if_neg hzero]
    rcases h.give_back hstop h.length_lt with ⟨hfree, hout⟩ | ⟨m', l', hfree, hin, hlaid, hfreed⟩
    · refine .inl ⟨hfree, fun p hp heq => hout ?_⟩
      rw [(record_eq hmem hzero (h.add_le hp)).mp heq]
      exact hp
    · exact .inr ⟨m', l', _, hfree, (record_eq hmem hzero (h.add_le hin)).mpr rfl, hin, hlaid, hfreed⟩

end Rtx
