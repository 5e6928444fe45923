-- SUMMARY: Lists linked by pointers: chains, the pointers back, and inserting, removing and searching on them.
import Mathlib.Data.List.Nodup
import Mathlib.Logic.Function.Basic

/-!
# Linked lists

The memory of a program that links its records is taken field by field, so a
pointer field is a function from records to records, or to `none` for the null
pointer. A list starts at a header, which is a record like the others. Every
record of a chain is written `(l.getLastD h)` when it is the last one of a part
`l` of the list behind the header `h`.
-/

namespace Linked

variable {α : Type*} {next next' prev prev' : α → Option α} {h p x y : α} {l r : List α}

/-- From the header `h`, `next` leads through the records of `l` to the null pointer. -/
def Chain (next : α → Option α) : α → List α → Prop
  | h, []     => next h = none
  | h, x :: l => next h = some x ∧ Chain next x l

/-- From every record of `l`, `prev` leads to the one before it, from the first to `h`. -/
def Back (prev : α → Option α) : α → List α → Prop
  | _, []     => True
  | h, x :: l => prev x = some h ∧ Back prev x l

@[simp] theorem chain_nil : Chain next h [] ↔ next h = none := Iff.rfl
@[simp] theorem chain_cons : Chain next h (x :: l) ↔ next h = some x ∧ Chain next x l := Iff.rfl
@[simp] theorem back_nil : Back prev h [] := trivial
@[simp] theorem back_cons : Back prev h (x :: l) ↔ prev x = some h ∧ Back prev x l := Iff.rfl

/-! ## Frames -/

theorem Chain.congr (hchain : Chain next h l) (heq : ∀ y ∈ h :: l, next' y = next y) :
    Chain next' h l := by
  induction l generalizing h with
  | nil => exact (heq h List.mem_cons_self).trans hchain
  | cons x l ih =>
    obtain ⟨hx, hl⟩ := hchain
    exact ⟨(heq h List.mem_cons_self).trans hx, ih hl fun y hy => heq y (List.mem_cons_of_mem h hy)⟩

theorem Back.congr (hback : Back prev h l) (heq : ∀ y ∈ l, prev' y = prev y) : Back prev' h l := by
  induction l generalizing h with
  | nil => trivial
  | cons x l ih =>
    obtain ⟨hx, hl⟩ := hback
    exact ⟨(heq x List.mem_cons_self).trans hx, ih hl fun y hy => heq y (List.mem_cons_of_mem x hy)⟩

/-! ## Parts of a list -/

theorem getLastD_mem (l : List α) (h : α) : l.getLastD h ∈ h :: l := by
  rcases List.eq_nil_or_concat' l with rfl | ⟨l, x, rfl⟩
  · exact List.mem_cons_self
  · rw [List.getLastD_concat]
    simp

theorem chain_append : Chain next h (l ++ r) →
    Chain next (l.getLastD h) r := by
  induction l generalizing h with
  | nil => exact id
  | cons x l ih =>
    intro hchain
    rw [List.getLastD_cons]
    exact ih hchain.2

theorem back_append : Back prev h (l ++ r) ↔ Back prev h l ∧ Back prev (l.getLastD h) r := by
  induction l generalizing h with
  | nil => simp
  | cons x l ih => rw [List.cons_append, back_cons, back_cons, ih, List.getLastD_cons, and_assoc]

/-- What the last record of a part points to is the first of the rest. -/
theorem Chain.next_getLastD (hchain : Chain next h (l ++ r)) : next (l.getLastD h) = r.head? := by
  have hrest := chain_append hchain
  cases r with
  | nil => exact hrest
  | cons x r => exact hrest.1

/-- A pointer back leads to a record that points here. -/
theorem Chain.split (hchain : Chain next h l) (hback : Back prev h l) (hx : x ∈ l) :
    ∃ before after, l = before ++ x :: after ∧ prev x = some (before.getLastD h) ∧
      next x = after.head? := by
  obtain ⟨before, after, rfl⟩ := List.append_of_mem hx
  refine ⟨before, after, rfl, (back_append.mp hback).2.1, ?_⟩
  have hrest := (chain_append hchain).2
  cases after with
  | nil => exact hrest
  | cons y after => exact hrest.1

/-- A chain determines its list. -/
theorem Chain.unique {l' : List α} (hchain : Chain next h l) (hchain' : Chain next h l') : l = l' := by
  induction l generalizing h l' with
  | nil =>
    cases l' with
    | nil => rfl
    | cons y l' => cases hchain'.1.symm.trans hchain
  | cons x l ih =>
    cases l' with
    | nil => cases hchain.1.symm.trans hchain'
    | cons y l' =>
      obtain rfl : x = y := Option.some.inj (hchain.1.symm.trans hchain'.1)
      rw [ih hchain.2 hchain'.2]

/-! ## Searching -/

/-- `while (next(p) != NULL && go(next(p))) p = next(p);`, for at most `n` passes. -/
def walk (next : α → Option α) (go : α → Bool) : Nat → α → Option α
  | 0, _     => none
  | n + 1, p =>
    match next p with
    | none   => some p
    | some q => if go q then walk next go n q else some p

/-- The search stops at the last of the first records that pass the test. -/
theorem Chain.walk (hchain : Chain next h l) (go : α → Bool) {n : Nat} (hn : l.length < n) :
    walk next go n h = some ((l.takeWhile go).getLastD h) := by
  induction l generalizing h n with
  | nil =>
    obtain ⟨n, rfl⟩ := Nat.exists_eq_succ_of_ne_zero (Nat.ne_of_gt hn)
    rw [Linked.walk, chain_nil.mp hchain]
    rfl
  | cons x l ih =>
    obtain ⟨n, rfl⟩ := Nat.exists_eq_succ_of_ne_zero (Nat.ne_of_gt (Nat.zero_lt_of_lt hn))
    rw [Linked.walk, hchain.1]
    by_cases hgo : go x = true
    · simp only [hgo, if_true, List.takeWhile_cons_of_pos, List.getLastD_cons]
      exact ih hchain.2 (Nat.lt_of_succ_lt_succ hn)
    · simp [hgo]

/-! ## Inserting and removing -/

section

variable [DecidableEq α]

theorem Chain.update_of_notMem (hchain : Chain next h l) (hx : x ∉ h :: l) (v : Option α) :
    Chain (Function.update next x v) h l :=
  hchain.congr fun y hy => Function.update_of_ne (fun heq : y = x => hx (heq ▸ hy)) _ _

theorem Back.update_of_notMem (hback : Back prev h l) (hx : x ∉ l) (v : Option α) :
    Back (Function.update prev x v) h l :=
  hback.congr fun y hy => Function.update_of_ne (fun heq : y = x => hx (heq ▸ hy)) _ _

/-- `x->next = p->next; p->next = x;` -/
def insertAfter (next : α → Option α) (p x : α) : α → Option α :=
  Function.update (Function.update next x (next p)) p (some x)

theorem Chain.insertAfter (hchain : Chain next h (l ++ r)) (hnodup : (h :: (l ++ r)).Nodup)
    (hx : x ∉ h :: (l ++ r)) :
    Chain (insertAfter next (l.getLastD h) x) h (l ++ x :: r) := by
  induction l generalizing h with
  | nil =>
    have hxh : x ≠ h := fun heq => hx (heq ▸ List.mem_cons_self)
    rw [List.getLastD_nil]
    refine ⟨Function.update_self _ _ _, ?_⟩
    have hstart : Linked.insertAfter next h x x = next h := by
      rw [Linked.insertAfter, Function.update_of_ne hxh, Function.update_self]
    have hframe : ∀ y ∈ r, Linked.insertAfter next h x y = next y := by
      intro y hy
      have hyh : y ≠ h := fun heq => (List.nodup_cons.mp hnodup).1 (heq ▸ hy)
      have hyx : y ≠ x := fun heq => hx (heq ▸ List.mem_cons_of_mem h hy)
      rw [Linked.insertAfter, Function.update_of_ne hyh, Function.update_of_ne hyx]
    cases r with
    | nil => exact hstart.trans hchain
    | cons y r => exact ⟨hstart.trans hchain.1, Chain.congr hchain.2 hframe⟩
  | cons y l ih =>
    obtain ⟨hh, hnodup'⟩ := List.nodup_cons.mp hnodup
    have hlast : l.getLastD y ≠ h := by
      intro heq
      have hmem : h ∈ y :: l := heq ▸ getLastD_mem l y
      exact hh (List.mem_append_left r hmem)
    have hxh : h ≠ x := fun heq => hx (heq ▸ List.mem_cons_self)
    rw [List.getLastD_cons]
    refine ⟨?_, ih hchain.2 hnodup' fun hmem => hx (List.mem_cons_of_mem h hmem)⟩
    rw [Linked.insertAfter, Function.update_of_ne hlast.symm, Function.update_of_ne hxh]
    exact hchain.1

/-- `p->next = x->next;` -/
def removeAfter (next : α → Option α) (p x : α) : α → Option α := Function.update next p (next x)

theorem Chain.removeAfter (hchain : Chain next h (l ++ x :: r))
    (hnodup : (h :: (l ++ x :: r)).Nodup) :
    Chain (removeAfter next (l.getLastD h) x) h (l ++ r) := by
  induction l generalizing h with
  | nil =>
    obtain ⟨hx, hrest⟩ := hchain
    have hframe : ∀ y ∈ r, Linked.removeAfter next h x y = next y := by
      intro y hy
      have hyh : y ≠ h := fun heq =>
        (List.nodup_cons.mp hnodup).1 (heq ▸ List.mem_cons_of_mem x hy)
      rw [Linked.removeAfter, Function.update_of_ne hyh]
    have hstart : Linked.removeAfter next h x h = next x := Function.update_self _ _ _
    cases r with
    | nil => exact hstart.trans hrest
    | cons y r => exact ⟨hstart.trans hrest.1, hrest.2.congr hframe⟩
  | cons y l ih =>
    obtain ⟨hh, hnodup'⟩ := List.nodup_cons.mp hnodup
    have hlast : l.getLastD y ≠ h := by
      intro heq
      have hmem : h ∈ y :: l := heq ▸ getLastD_mem l y
      exact hh (List.mem_append_left (x :: r) hmem)
    rw [List.getLastD_cons]
    refine ⟨?_, ih hchain.2 hnodup'⟩
    rw [Linked.removeAfter, Function.update_of_ne hlast.symm]
    exact hchain.1

/-- `if (q != NULL) q->prev = v;` -/
def setAt (prev : α → Option α) (q : Option α) (v : Option α) : α → Option α :=
  match q with
  | none   => prev
  | some q => Function.update prev q v

@[simp] theorem setAt_none (prev : α → Option α) (v : Option α) : setAt prev none v = prev := rfl
@[simp] theorem setAt_some (prev : α → Option α) (q : α) (v : Option α) :
    setAt prev (some q) v = Function.update prev q v := rfl

theorem setAt_of_ne {q : Option α} (hy : q ≠ some y) (v : Option α) : setAt prev q v y = prev y := by
  cases q with
  | none => rfl
  | some q => exact Function.update_of_ne (fun heq : y = q => hy (heq ▸ rfl)) _ _

/-- The pointers back around a record that was inserted. -/
theorem Back.insert (hback : Back prev h (l ++ r)) (hnodup : (l ++ r).Nodup) (hx : x ∉ l ++ r) :
    Back (Function.update (setAt prev r.head? (some x)) x (some (l.getLastD h))) h
      (l ++ x :: r) := by
  obtain ⟨hbefore, hafter⟩ := back_append.mp hback
  have hdisjoint := hnodup.disjoint
  rw [List.mem_append, not_or] at hx
  refine back_append.mpr ⟨?_, Function.update_self _ _ _, ?_⟩
  · refine Back.update_of_notMem (hbefore.congr fun y hy => setAt_of_ne ?_ _) hx.1 _
    intro heq
    exact hdisjoint hy (List.mem_of_mem_head? (Option.mem_def.mpr heq))
  · refine Back.update_of_notMem ?_ hx.2 _
    cases r with
    | nil => trivial
    | cons y r =>
      have hy : y ∉ r := (List.nodup_cons.mp hnodup.of_append_right).1
      exact ⟨Function.update_self _ _ _, hafter.2.update_of_notMem hy _⟩

/-- The pointers back around a record that was removed. -/
theorem Back.remove (hback : Back prev h (l ++ x :: r)) (hnodup : (l ++ x :: r).Nodup) :
    Back (setAt prev r.head? (some (l.getLastD h))) h (l ++ r) := by
  obtain ⟨hbefore, hafter⟩ := back_append.mp hback
  have hdisjoint := hnodup.disjoint
  refine back_append.mpr ⟨hbefore.congr fun y hy => setAt_of_ne ?_ _, ?_⟩
  · intro heq
    have hmem : y ∈ r := List.mem_of_mem_head? (Option.mem_def.mpr heq)
    exact hdisjoint hy (List.mem_cons_of_mem x hmem)
  · cases r with
    | nil => trivial
    | cons y r =>
      have hy : y ∉ r :=
        (List.nodup_cons.mp (List.nodup_cons.mp hnodup.of_append_right).2).1
      exact ⟨Function.update_self _ _ _, hafter.2.2.update_of_notMem hy _⟩

end

/-! ## Lists without a header -/

/-- `p` points to the first record of `l`. -/
def Starts (next : α → Option α) : Option α → List α → Prop
  | p, []     => p = none
  | p, x :: l => p = some x ∧ Chain next x l

/-- What a search leaves behind in `prev` that went through `l`. -/
def last : Option α → List α → Option α
  | prev, []  => prev
  | _, x :: l => last (some x) l

theorem last_some (h : α) (l : List α) : last (some h) l = some (l.getLastD h) := by
  induction l generalizing h with
  | nil => rfl
  | cons x l ih => rw [last, ih, List.getLastD_cons]

theorem Chain.starts (hchain : Chain next h l) : Starts next (next h) l := by
  cases l with
  | nil => exact hchain
  | cons x l => exact hchain

theorem Starts.head {q : Option α} (hstarts : Starts next q l) : q = l.head? := by
  cases l with
  | nil => exact hstarts
  | cons x l => exact hstarts.1

/-- From a record of the list the links go on as in a chain. -/
theorem Starts.chain {q : Option α} (hstarts : Starts next q (l ++ x :: r)) : Chain next x r := by
  cases l with
  | nil => exact hstarts.2
  | cons y l => exact (chain_append hstarts.2).2

theorem Starts.congr {q : Option α} (hstarts : Starts next q l) (heq : ∀ y ∈ l, next' y = next y) :
    Starts next' q l := by
  cases l with
  | nil => exact hstarts
  | cons x l => exact ⟨hstarts.1, hstarts.2.congr heq⟩

section

variable [DecidableEq α]

/-- A record `x` behind the part `l`, and in front if there is none. -/
theorem Starts.insert {q : Option α} (hstarts : Starts next q (l ++ r)) (hnodup : (l ++ r).Nodup)
    (hx : x ∉ l ++ r) :
    Starts (setAt (Function.update next x r.head?) (last none l) (some x))
      (if last none l = none then some x else q) (l ++ x :: r) := by
  cases l with
  | nil =>
    refine ⟨rfl, ?_⟩
    rw [last, setAt_none]
    cases r with
    | nil => exact Function.update_self _ _ _
    | cons y r => exact ⟨Function.update_self _ _ _, hstarts.2.update_of_notMem hx _⟩
  | cons y l =>
    have hinserted := hstarts.2.insertAfter hnodup hx
    have hnext := hstarts.2.next_getLastD
    rw [last, last_some, setAt_some, if_neg (Option.some_ne_none _), ← hnext]
    exact ⟨hstarts.1, hinserted⟩

/-- The record `x` is taken out behind the part `l`. -/
theorem Starts.remove {q : Option α} (hstarts : Starts next q (l ++ x :: r))
    (hnodup : (l ++ x :: r).Nodup) :
    Starts (setAt next (last none l) (next x)) (if last none l = none then next x else q)
      (l ++ r) := by
  cases l with
  | nil => exact hstarts.2.starts
  | cons y l =>
    rw [last, last_some, setAt_some, if_neg (Option.some_ne_none _)]
    exact ⟨hstarts.1, hstarts.2.removeAfter hnodup⟩

end

end Linked
