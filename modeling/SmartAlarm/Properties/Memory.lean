-- SUMMARY: The memory pool: blocks in hand never overlap, and a pool that everything was given back to is like new.
import SmartAlarm.Rtos.MemoryPool

/-!
# The memory pool

The pool knows its blocks by their records only, a client knows them by what the calls
returned. Both see the same blocks in every run in which no size is so large that the
sum with a record does not fit into 32 bits, and nothing is given back from just behind
the pool.
-/

namespace Rtx

open Function

variable {m m' : Mem} {pool stop size : Nat} {l : List Nat} {hs : List (Nat × Nat)} {is : List MemInput}

/-- The blocks that a client has in hand, with the sizes it asked for. -/
def hold (hs : List (Nat × Nat)) : MemEvent → List (Nat × Nat)
  | .allocated size (some mem) => (mem, size) :: hs
  | .allocated _ none => hs
  | .freed mem true => hs.filter fun b => b.1 ≠ mem
  | .freed _ false => hs

def held (events : List MemEvent) : List (Nat × Nat) := events.foldl hold []

/-- The calls that a client may make. Behind the link at the end of the pool is no block. -/
def Allowed (pool size : Nat) : MemInput → Prop
  | .rt_alloc_mem n => n.toNat + 11 < 4294967296
  | .rt_free_mem mem => mem.toNat ≠ u32 (pool + size + 4)

/-- The records of the pool are those of the blocks in hand. -/
structure Holding (m : Mem) (pool stop : Nat) (l : List Nat) (hs : List (Nat × Nat)) : Prop where
  laid : Laid m pool stop l
  block : ∀ b ∈ hs, ∃ p ∈ pool :: l, b.1 = p + 8 ∧ b.2 + 8 ≤ m.len p
  inHand : ∀ p ∈ pool :: l, m.len p ≠ 0 → p + 8 ∈ hs.map Prod.fst
  nodup : (hs.map Prod.fst).Nodup

theorem whole_eq (hfits : size + 11 < 4294967296) : Mem.whole size = (size + 11) / 4 * 4 := by
  rw [Mem.whole, u32, u32]
  omega

/-! ## One call -/

theorem Holding.taken {l' : List Nat} {p : Nat} (h : Holding m pool stop l hs) (hlaid : Laid m' pool stop l')
    (htaken : Taken m pool l m' l' p (Mem.whole size)) (hfits : size + 11 < 4294967296) :
    Holding m' pool stop l' ((p + 8, size) :: hs) := by
  have hwhole := whole_eq hfits
  have hnew : ∀ b ∈ hs, b.1 ≠ p + 8 := by
    intro b hb heq
    obtain ⟨q, hq, hqb, hlen⟩ := h.block b hb
    obtain rfl : q = p := by omega
    have hzero := htaken.fresh hq
    omega
  refine ⟨hlaid, ?_, fun q hq hlen => ?_, List.nodup_cons.mpr ⟨?_, h.nodup⟩⟩
  · refine List.forall_mem_cons.mpr ⟨⟨p, htaken.mem, rfl, ?_⟩, fun b hb => ?_⟩
    · rw [htaken.len]
      dsimp only
      omega
    · obtain ⟨q, hq, hqb, hlen⟩ := h.block b hb
      have hne : q ≠ p := fun heq => hnew b hb (heq ▸ hqb)
      obtain ⟨hmem, hsame⟩ := htaken.other q hne
      exact ⟨q, hmem.mpr hq, hqb, hsame ▸ hlen⟩
  · by_cases heq : q = p
    · rw [heq]
      exact List.mem_cons_self
    · obtain ⟨hmem, hsame⟩ := htaken.other q heq
      exact List.mem_cons_of_mem _ (h.inHand q (hmem.mp hq) (hsame ▸ hlen))
  · intro hin
    obtain ⟨b, hb, heq⟩ := List.mem_map.mp hin
    exact hnew b hb heq

theorem Holding.freed {l' : List Nat} {p : Nat} (h : Holding m pool stop l hs) (hlaid : Laid m' pool stop l')
    (hfreed : Freed m pool l m' l' p) : Holding m' pool stop l' (hs.filter fun b => b.1 ≠ p + 8) := by
  refine ⟨hlaid, fun b hb => ?_, fun q hq hlen => ?_, h.nodup.sublist (List.filter_sublist.map Prod.fst)⟩
  · obtain ⟨hb, hne⟩ := List.mem_filter.mp hb
    obtain ⟨q, hq, hqb, hlen⟩ := h.block b hb
    have hqp : q ≠ p := fun heq => of_decide_eq_true hne (heq ▸ hqb)
    obtain ⟨hmem, hsame⟩ := hfreed.other q hqp
    exact ⟨q, hmem.mpr hq, hqb, hsame ▸ hlen⟩
  · have hqp : q ≠ p := fun heq => hlen (heq ▸ hfreed.gone (heq ▸ hq))
    obtain ⟨hmem, hsame⟩ := hfreed.other q hqp
    obtain ⟨b, hb, hbq⟩ := List.mem_map.mp (h.inHand q (hmem.mp hq) (hsame ▸ hlen))
    refine List.mem_map.mpr ⟨b, List.mem_filter.mpr ⟨hb, decide_eq_true ?_⟩, hbq⟩
    omega

theorem Holding.serve (h : Holding m pool (pool + size - 4) l hs) {i : MemInput} (hi : Allowed pool size i) :
    ∃ m' l' event, m.serve pool i = some (m', event) ∧ Holding m' pool (pool + size - 4) l' (hold hs event) := by
  cases i with
  | rt_alloc_mem n =>
    rw [Mem.serve]
    by_cases hzero : n.toNat = 0
    · refine ⟨m, l, .allocated n.toNat none, ?_, h⟩
      rw [Mem.rt_alloc_mem, if_pos hzero]
      rfl
    · rcases h.laid.alloc hzero hi with ⟨halloc, -⟩ | ⟨m', l', p, halloc, hlaid, htaken⟩
      · refine ⟨m, l, .allocated n.toNat none, ?_, h⟩
        rw [halloc]
        rfl
      · refine ⟨m', l', .allocated n.toNat (some (p + 8)), ?_, h.taken hlaid htaken hi⟩
        rw [halloc]
        rfl
  | rt_free_mem mem =>
    have hlt := mem.toNat_lt
    have hstart := h.laid.room
    have hstop : u32 (mem.toNat + 4294967288) ≠ pool + size - 4 := by
      have hne : mem.toNat ≠ u32 (pool + size + 4) := hi
      rw [u32] at hne ⊢
      omega
    rw [Mem.serve]
    rcases h.laid.free hlt hstop with ⟨hfree, -⟩ | ⟨m', l', p, hfree, heq, -, hlaid, hfreed⟩
    · refine ⟨m, l, .freed mem.toNat false, ?_, h⟩
      rw [hfree]
      rfl
    · refine ⟨m', l', .freed mem.toNat true, ?_, ?_⟩
      · rw [hfree]
        rfl
      · rw [hold, heq]
        exact h.freed hlaid hfreed

/-! ## Runs -/

theorem Holding.init (m : Mem) (hsize : 8 ≤ size) (hroom : pool + size ≤ 4294967296) :
    ∃ m', m.rt_init_mem pool size = some m' ∧ Holding m' pool (pool + size - 4) [] [] := by
  have hstop : u32 (pool + size + 4294967292) = pool + size - 4 := by
    rw [u32]
    omega
  rw [Mem.rt_init_mem, if_neg (Nat.not_lt.mpr hsize)]
  dsimp only
  rw [hstop]
  have hne : pool ≠ pool + size - 4 := by omega
  refine ⟨_, rfl, ⟨⟨?_, ?_⟩, ?_, ?_, ?_, ?_, ?_, ?_⟩, ?_, ?_, List.nodup_nil⟩
  · exact (update_of_ne hne _ _).trans (update_self _ _ _)
  · exact update_self _ _ _
  · simp only [List.nil_append, List.pairwise_cons, List.mem_singleton, Behind, update_self]
    refine ⟨?_, by simp⟩
    rintro q rfl
    omega
  · simp
  · simp
  · simp
  · omega
  · omega
  · simp
  · simp

theorem Holding.run (h : Holding m pool (pool + size - 4) l hs) (his : ∀ i ∈ is, Allowed pool size i) :
    ∃ m' l', (memory pool).run (some m) is = some m' ∧
      Holding m' pool (pool + size - 4) l' (((memory pool).trace (some m) is).foldl hold hs) := by
  induction is generalizing m l hs with
  | nil => exact ⟨m, l, rfl, h⟩
  | cons i is ih =>
    obtain ⟨hi, his'⟩ := List.forall_mem_cons.mp his
    obtain ⟨m₁, l₁, event, hserve, hnext⟩ := h.serve hi
    obtain ⟨m', l', hrun, hholding⟩ := ih hnext his'
    have hstep : (memory pool).step (some m) i = (some m₁, [event]) := by
      rw [memory]
      dsimp only
      rw [Option.bind_some, hserve]
    refine ⟨m', l', ?_, ?_⟩
    · rw [Machine.run_cons, Machine.next, hstep]
      exact hrun
    · rw [Machine.trace_cons, Machine.out, Machine.next, hstep, List.singleton_append, List.foldl_cons]
      exact hholding

/-- The blocks of two records do not overlap, nor does one reach the record of the other. -/
theorem Holding.apart (h : Holding m pool stop l hs) :
    hs.Pairwise fun b c => b.1 + b.2 + 8 ≤ c.1 ∨ c.1 + c.2 + 8 ≤ b.1 := by
  have hne : hs.Pairwise fun b c => b.1 ≠ c.1 := List.pairwise_map.mp h.nodup
  refine hne.imp_of_mem fun hb hc hbc => ?_
  obtain ⟨p, hp, hpb, hlenp⟩ := h.block _ hb
  obtain ⟨q, hq, hqc, hlenq⟩ := h.block _ hc
  have hpq : p ≠ q := by omega
  rcases h.laid.behind_or hp hq hpq with ⟨-, hle⟩ | ⟨-, hle⟩
  · exact .inl (by omega)
  · exact .inr (by omega)

/-- From a new pool on, no block in hand overlaps another one or leaves the pool, and none of the
    loops over the records runs on for ever or past the end. -/
theorem blocks_apart (m : Mem) (hsize : 8 ≤ size) (hroom : pool + size ≤ 4294967296)
    (his : ∀ i ∈ is, Allowed pool size i) :
    ((memory pool).run (m.rt_init_mem pool size) is).isSome ∧
      (held ((memory pool).trace (m.rt_init_mem pool size) is)).Pairwise
        (fun b c => b.1 + b.2 + 8 ≤ c.1 ∨ c.1 + c.2 + 8 ≤ b.1) ∧
      ∀ b ∈ held ((memory pool).trace (m.rt_init_mem pool size) is),
        pool + 8 ≤ b.1 ∧ b.1 + b.2 + 4 ≤ pool + size ∧ b.1 % 4 = pool % 4 := by
  obtain ⟨m', hinit, hnew⟩ := Holding.init m hsize hroom
  obtain ⟨m₁, l₁, hrun, h⟩ := hnew.run his
  rw [hinit]
  refine ⟨by rw [hrun]; rfl, h.apart, fun b hb => ?_⟩
  obtain ⟨p, hp, hpb, hlen⟩ := h.block b hb
  have hlow := h.laid.pool_le hp
  have hhigh := (h.laid.le_stop hp).2
  have hstart := h.laid.room
  have haligned := (h.laid.aligned p hp).1
  omega

theorem blocks_apart_three :
    (held ((memory 1024).trace (Mem.rt_init_mem ⟨fun _ => none, fun _ => 0⟩ 1024 64)
      [.rt_alloc_mem 5, .rt_alloc_mem 8, .rt_free_mem 1032, .rt_alloc_mem 4])).Pairwise
        fun b c => b.1 + b.2 + 8 ≤ c.1 ∨ c.1 + c.2 + 8 ≤ b.1 :=
  (blocks_apart ⟨fun _ => none, fun _ => 0⟩ (by decide) (by decide)
    (by simp [Allowed, u32])).2.1

/-- Without blocks the whole pool is one hole. -/
theorem Holding.hole_size (h : Holding m pool (pool + size - 4) l []) :
    l = [] ∧ m.len pool = 0 ∧ m.hole_size pool = size - 4 := by
  have hzero : ∀ p ∈ pool :: l, m.len p = 0 := by
    intro p hp
    by_contra hne
    exact List.not_mem_nil (h.inHand p hp hne)
  have hnil : l = [] := by
    refine List.eq_nil_iff_forall_not_mem.mpr fun q hq => ?_
    exact h.laid.used q hq (hzero q (List.mem_cons_of_mem _ hq))
  have hstart := h.laid.room
  have hlimit := h.laid.limit
  have hlen := hzero pool List.mem_cons_self
  have hchain := h.laid.chain
  rw [hnil] at hchain
  refine ⟨hnil, hlen, ?_⟩
  rw [hole_size_eq hchain.1 ⟨by omega, by omega⟩ (by omega)]
  omega

/-- When everything is given back, the whole pool can be taken again. -/
theorem all_given_back (m : Mem) (hsize : size < 4294967296) (hroom : pool + size ≤ 4294967296)
    (his : ∀ i ∈ is, Allowed pool size i)
    (hnone : held ((memory pool).trace (m.rt_init_mem pool size) is) = [])
    {n : UInt32} (hpos : n.toNat ≠ 0) (hfits : (n.toNat + 11) / 4 * 4 + 4 ≤ size) :
    ∃ mem, (memory pool).trace (m.rt_init_mem pool size) (is ++ [.rt_alloc_mem n]) =
      (memory pool).trace (m.rt_init_mem pool size) is ++ [.allocated n.toNat (some mem)] := by
  obtain ⟨m', hinit, hnew⟩ := Holding.init m (by omega) hroom
  rw [hinit] at hnone ⊢
  obtain ⟨m₁, l₁, hrun, h⟩ := hnew.run his
  replace h : Holding m₁ pool (pool + size - 4) l₁ [] := hnone ▸ h
  obtain ⟨rfl, -, hhole⟩ := h.hole_size
  have hsmall : n.toNat + 11 < 4294967296 := by omega
  have hwhole := whole_eq hsmall
  rcases h.laid.alloc hpos hsmall with ⟨-, hall⟩ | ⟨m₂, l₂, p, halloc, -, -⟩
  · have hlt := hall pool List.mem_cons_self
    omega
  · have hserve : m₁.serve pool (.rt_alloc_mem n) = some (m₂, .allocated n.toNat (some (p + 8))) := by
      rw [Mem.serve, halloc]
      rfl
    refine ⟨p + 8, ?_⟩
    rw [Machine.trace_concat, hrun, Machine.out, memory]
    dsimp only
    rw [Option.bind_some, hserve]

theorem all_given_back_two :
    ∃ mem, (memory 1024).trace (Mem.rt_init_mem ⟨fun _ => none, fun _ => 0⟩ 1024 64)
        ([.rt_alloc_mem 5, .rt_alloc_mem 8, .rt_free_mem 1032, .rt_free_mem 1048] ++ [.rt_alloc_mem 49]) =
      (memory 1024).trace (Mem.rt_init_mem ⟨fun _ => none, fun _ => 0⟩ 1024 64)
          [.rt_alloc_mem 5, .rt_alloc_mem 8, .rt_free_mem 1032, .rt_free_mem 1048] ++
        [.allocated 49 (some mem)] :=
  all_given_back ⟨fun _ => none, fun _ => 0⟩ (by decide) (by decide) (by simp [Allowed, u32])
    (by decide +kernel) (by decide) (by decide)

/-- A size that does not fit into 32 bits together with a record is granted by a new pool of any
    length. -/
theorem huge_alloc_granted (m : Mem) (hsize : 12 ≤ size) (hroom : pool + size ≤ 4294967296)
    {n : UInt32} (hhuge : 4294967296 ≤ n.toNat + 11) :
    (memory pool).trace (m.rt_init_mem pool size) [.rt_alloc_mem n] =
      [.allocated n.toNat (some (pool + 8))] := by
  obtain ⟨m', hinit, h⟩ := Holding.init m (Nat.le_trans (by decide) hsize) hroom
  rw [hinit]
  obtain ⟨-, hlen, hhole⟩ := h.hole_size
  have hlt := n.toNat_lt
  have hwhole : Mem.whole n.toNat ≤ 8 := by
    rw [Mem.whole, u32, u32]
    omega
  have hpos : n.toNat ≠ 0 := by omega
  have haddr : u32 (pool + 8) = pool + 8 := Nat.mod_eq_of_lt (by omega)
  have hloop : m'.alloc_loop (Mem.whole n.toNat) 4294967296 pool = some (some pool) := by
    rcases alloc_loop_eq (Mem.whole n.toNat) (k := 4294967296) h.laid.chain
      (Linked.chain_append h.laid.chain).2 (by simp) (by simp) with ⟨-, hall⟩ | ⟨a, b, hnil, hloop, -⟩
    · have hlt := hall pool List.mem_cons_self
      omega
    · obtain ⟨rfl, -⟩ := List.append_eq_nil_iff.mp hnil.symm
      exact hloop
  have hserve : ∃ m₂, m'.serve pool (.rt_alloc_mem n) = some (m₂, .allocated n.toNat (some (pool + 8))) := by
    rw [Mem.serve, Mem.rt_alloc_mem, if_neg hpos, hloop]
    refine ⟨{ m' with len := update m'.len pool (Mem.whole n.toNat) }, ?_⟩
    simp only [Option.bind_eq_bind, Option.bind_some, Mem.take, if_pos hlen, haddr]
    rfl
  obtain ⟨m₂, hserve⟩ := hserve
  rw [Machine.trace_cons, Machine.trace_nil, List.append_nil, Machine.out, memory]
  dsimp only
  rw [Option.bind_some, hserve]

example :
    (memory 1024).trace (Mem.rt_init_mem ⟨fun _ => none, fun _ => 0⟩ 1024 64) [.rt_alloc_mem 4294967295] =
      [.allocated 4294967295 (some 1032)] :=
  huge_alloc_granted ⟨fun _ => none, fun _ => 0⟩ (by decide) (by decide) (by decide)

end Rtx
