-- SUMMARY: Reactive machines: steps that read an input and emit events, their runs, traces and induction rules.
import Mathlib.Data.List.Induction
import Mathlib.Tactic.TypeStar

/-!
# Reactive machines

A program that runs for ever reads inputs and acts on its surroundings. Here it
is a step function from a state and one input to a new state and the events of
that step. A run is the list of its inputs, so a statement about every run is a
statement about every list.

Some programs cannot take every input in every state: a thread that waits, a
timer that is not armed. `Admits` is the guard for these, and the guarded rules
are the ones that mention it.
-/

structure Machine (σ ι ε : Type*) where
  step : σ → ι → σ × List ε

namespace Machine

variable {σ ι ε : Type*} (m : Machine σ ι ε)

/-- The state after one step. -/
def next (s : σ) (i : ι) : σ := (m.step s i).1

/-- The events of one step. -/
def out (s : σ) (i : ι) : List ε := (m.step s i).2

/-- The state after a list of inputs. -/
def run : σ → List ι → σ
  | s, []      => s
  | s, i :: is => run (m.next s i) is

/-- All events of a list of inputs, oldest first. -/
def trace : σ → List ι → List ε
  | _, []      => []
  | s, i :: is => m.out s i ++ trace (m.next s i) is

@[simp] theorem run_nil (s : σ) : m.run s [] = s := rfl
@[simp] theorem run_cons (s : σ) (i : ι) (is : List ι) :
    m.run s (i :: is) = m.run (m.next s i) is := rfl
@[simp] theorem trace_nil (s : σ) : m.trace s [] = [] := rfl
@[simp] theorem trace_cons (s : σ) (i : ι) (is : List ι) :
    m.trace s (i :: is) = m.out s i ++ m.trace (m.next s i) is := rfl

theorem run_append (s : σ) (is js : List ι) :
    m.run s (is ++ js) = m.run (m.run s is) js := by
  induction is generalizing s with
  | nil => rfl
  | cons i is ih => simp only [List.cons_append, run_cons, ih]

theorem trace_append (s : σ) (is js : List ι) :
    m.trace s (is ++ js) = m.trace s is ++ m.trace (m.run s is) js := by
  induction is generalizing s with
  | nil => rfl
  | cons i is ih => simp only [List.cons_append, trace_cons, run_cons, ih, List.append_assoc]

theorem run_concat (s : σ) (is : List ι) (i : ι) :
    m.run s (is ++ [i]) = m.next (m.run s is) i := by
  rw [run_append, run_cons, run_nil]

theorem trace_concat (s : σ) (is : List ι) (i : ι) :
    m.trace s (is ++ [i]) = m.trace s is ++ m.out (m.run s is) i := by
  rw [trace_append, trace_cons, trace_nil, List.append_nil]

/-! ## Induction over runs -/

/-- A relation between the inputs so far, the events so far and the state holds
    after every run if it holds at the start and one more step keeps it. -/
theorem history {J : List ι → List ε → σ → Prop} {s : σ} (h0 : J [] [] s)
    (hstep : ∀ is tr t i, J is tr t → J (is ++ [i]) (tr ++ m.out t i) (m.next t i))
    (is : List ι) : J is (m.trace s is) (m.run s is) := by
  induction is using List.reverseRecOn with
  | nil => exact h0
  | append_singleton is i ih =>
    rw [run_concat, trace_concat]
    exact hstep _ _ _ _ ih

/-- The rule of invariants. -/
theorem invariant {I : σ → Prop} {s : σ} (h0 : I s)
    (hstep : ∀ t i, I t → I (m.next t i)) (is : List ι) : I (m.run s is) :=
  m.history (J := fun _ _ t => I t) h0 (fun _ _ t i => hstep t i) is

/-- An event property that every step from an invariant state guarantees holds
    of the whole trace. -/
theorem forall_mem_trace {I : σ → Prop} {P : ε → Prop} {s : σ} (h0 : I s)
    (hstep : ∀ t i, I t → I (m.next t i) ∧ ∀ e ∈ m.out t i, P e) (is : List ι) :
    ∀ e ∈ m.trace s is, P e := by
  refine (m.history (J := fun _ tr t => I t ∧ ∀ e ∈ tr, P e) ⟨h0, by simp⟩ ?_ is).2
  intro _ tr t i ⟨ht, htr⟩
  obtain ⟨hnext, hout⟩ := hstep t i ht
  refine ⟨hnext, fun e he => ?_⟩
  rcases List.mem_append.mp he with he | he
  · exact htr e he
  · exact hout e he

section AtEach

variable {P : List ε → ε → Prop} {tr : List ε}

/-- Every event of a trace stands in relation `P` to the events before it. -/
def AtEach (P : List ε → ε → Prop) (tr : List ε) : Prop :=
  ∀ pre e post, tr = pre ++ e :: post → P pre e

theorem AtEach.append (h : AtEach P tr) {es : List ε}
    (hes : ∀ pre e post, es = pre ++ e :: post → P (tr ++ pre) e) : AtEach P (tr ++ es) := by
  intro pre e post heq
  rcases List.append_eq_append_iff.mp heq with ⟨mid, rfl, hmid⟩ | ⟨mid, rfl, hmid⟩
  · exact hes mid e post hmid
  · cases mid with
    | nil => simpa using hes [] e post hmid.symm
    | cons e' mid =>
      obtain ⟨rfl, rfl⟩ : e = e' ∧ post = mid ++ es := by simpa using hmid
      exact h pre e mid rfl

theorem AtEach.left {es : List ε} (h : AtEach P (tr ++ es)) : AtEach P tr :=
  fun pre e post heq => h pre e (post ++ es) (by rw [heq, List.append_assoc, List.cons_append])

theorem atEach_iff : AtEach P tr ↔ ∀ (n : Nat) (h : n < tr.length), P (tr.take n) tr[n] := by
  constructor
  · intro h n hn
    exact h _ _ (tr.drop (n + 1)) (by rw [List.getElem_cons_drop, List.take_append_drop])
  · rintro h pre e post rfl
    simpa using h pre.length (by simp)

instance decidableAtEach [∀ pre e, Decidable (P pre e)] : Decidable (AtEach P tr) :=
  decidable_of_iff _ atEach_iff.symm

end AtEach

/-! ## Guarded runs -/

/-- Every input of the run is one that the guard allows in the state it meets. -/
def Admits (ok : σ → ι → Prop) : σ → List ι → Prop
  | _, []      => True
  | s, i :: is => ok s i ∧ Admits ok (m.next s i) is

variable {ok : σ → ι → Prop}

@[simp] theorem admits_nil (s : σ) : m.Admits ok s [] := trivial
@[simp] theorem admits_cons (s : σ) (i : ι) (is : List ι) :
    m.Admits ok s (i :: is) ↔ ok s i ∧ m.Admits ok (m.next s i) is := Iff.rfl

instance decidableAdmits [∀ s i, Decidable (ok s i)] : ∀ (s : σ) (is : List ι), Decidable (m.Admits ok s is)
  | _, []      => inferInstanceAs (Decidable True)
  | s, i :: is =>
    have := decidableAdmits (m.next s i) is
    inferInstanceAs (Decidable (ok s i ∧ m.Admits ok (m.next s i) is))

theorem admits_append (s : σ) (is js : List ι) :
    m.Admits ok s (is ++ js) ↔ m.Admits ok s is ∧ m.Admits ok (m.run s is) js := by
  induction is generalizing s with
  | nil => simp
  | cons i is ih => simp only [List.cons_append, admits_cons, run_cons, ih, and_assoc]

/-- The rule of invariants for guarded runs. -/
theorem invariant_of_admits {I : σ → Prop} {s : σ} {is : List ι} (hadm : m.Admits ok s is)
    (h0 : I s) (hstep : ∀ t i, I t → ok t i → I (m.next t i)) : I (m.run s is) := by
  induction is generalizing s with
  | nil => exact h0
  | cons i is ih => exact ih hadm.2 (hstep s i h0 hadm.1)

/-- An event property that every allowed step from an invariant state guarantees
    holds of the whole trace. -/
theorem forall_mem_trace_of_admits {I : σ → Prop} {P : ε → Prop} {s : σ} {is : List ι}
    (hadm : m.Admits ok s is) (h0 : I s)
    (hstep : ∀ t i, I t → ok t i → I (m.next t i) ∧ ∀ e ∈ m.out t i, P e) :
    ∀ e ∈ m.trace s is, P e := by
  induction is generalizing s with
  | nil => simp
  | cons i is ih =>
    obtain ⟨hnext, hout⟩ := hstep s i h0 hadm.1
    intro e he
    rcases List.mem_append.mp he with he | he
    · exact hout e he
    · exact ih hadm.2 hnext e he

/-- A relation between the events so far and the state that every allowed step keeps. -/
theorem history_of_admits {J : List ε → σ → Prop} {s : σ} {is : List ι}
    (hadm : m.Admits ok s is) (h0 : J [] s)
    (hstep : ∀ tr t i, J tr t → ok t i → J (tr ++ m.out t i) (m.next t i)) :
    J (m.trace s is) (m.run s is) := by
  have hgen : ∀ tr, J tr s → J (tr ++ m.trace s is) (m.run s is) := by
    clear h0
    induction is generalizing s with
    | nil =>
      intro tr h
      simpa using h
    | cons i is ih =>
      intro tr h
      rw [trace_cons, run_cons, ← List.append_assoc]
      exact ih hadm.2 _ (hstep tr s i h hadm.1)
  exact hgen [] h0

theorem Admits.mono {ok' : σ → ι → Prop} (h : ∀ t i, ok t i → ok' t i) {s : σ} {is : List ι}
    (hadm : m.Admits ok s is) : m.Admits ok' s is := by
  induction is generalizing s with
  | nil => trivial
  | cons i is ih => exact ⟨h s i hadm.1, ih hadm.2⟩

/-- Two machines whose states stay related at every allowed step, and which emit the
    same events at it, emit the same events over every run. -/
theorem simulate {σ' : Type*} (m' : Machine σ' ι ε) {R : σ → σ' → Prop} {s : σ} {s' : σ'}
    {is : List ι} (hadm : m.Admits ok s is) (h0 : R s s')
    (hstep : ∀ t t' i, R t t' → ok t i →
      R (m.next t i) (m'.next t' i) ∧ m.out t i = m'.out t' i) :
    R (m.run s is) (m'.run s' is) ∧ m.trace s is = m'.trace s' is := by
  induction is generalizing s s' with
  | nil => exact ⟨h0, rfl⟩
  | cons i is ih =>
    obtain ⟨hnext, hout⟩ := hstep s s' i h0 hadm.1
    obtain ⟨hrun, htrace⟩ := ih hadm.2 hnext
    rw [trace_cons, trace_cons, hout, htrace]
    exact ⟨hrun, rfl⟩

/-! ## Runs that end -/

/-- Enough inputs of a kind, whatever they are, lead to a state that is done, and
    the events up to there are exactly these. -/
def Ends (ok : ι → Prop) (done : σ → Prop) (s : σ) (events : List ε) : Prop :=
  ∃ n, ∀ is : List ι, is.length = n → (∀ i ∈ is, ok i) →
    done (m.run s is) ∧ m.trace s is = events

section Ends

variable {ok : ι → Prop} {done : σ → Prop} {s s' : σ} {now events : List ε}

/-- A state that is done and stays silent has ended. -/
theorem ends_of_done (hok : ∃ i, ok i) (hdone : done s) (hstep : ∀ i, m.step s i = (s, [])) :
    m.Ends ok done s events ↔ events = [] := by
  have hstay : ∀ is, m.run s is = s ∧ m.trace s is = [] := by
    intro is
    induction is with
    | nil => exact ⟨rfl, rfl⟩
    | cons i is ih =>
      rw [run_cons, trace_cons, next, out, hstep]
      exact ih
  obtain ⟨i, hi⟩ := hok
  constructor
  · rintro ⟨n, h⟩
    have htrace := (h (List.replicate n i) List.length_replicate
      fun j hj => List.eq_of_mem_replicate hj ▸ hi).2
    rw [← htrace, (hstay _).2]
  · rintro rfl
    exact ⟨0, fun is _ _ => ⟨by rwa [(hstay is).1], (hstay is).2⟩⟩

/-- A state that is not done ends as its next state does, if all inputs of the
    kind lead to the same one. -/
theorem ends_iff_next (hok : ∃ i, ok i) (hdone : ¬ done s)
    (hstep : ∀ i, ok i → m.step s i = (s', now)) :
    m.Ends ok done s events ↔ ∃ rest, events = now ++ rest ∧ m.Ends ok done s' rest := by
  obtain ⟨i, hi⟩ := hok
  constructor
  · rintro ⟨n, h⟩
    cases n with
    | zero => exact absurd (h [] rfl (by simp)).1 hdone
    | succ n =>
      have hrest : ∀ is : List ι, is.length = n → (∀ j ∈ is, ok j) →
          done (m.run s' is) ∧ now ++ m.trace s' is = events := by
        intro is hlen his
        have hcons := h (i :: is) (by simp [hlen]) (List.forall_mem_cons.mpr ⟨hi, his⟩)
        rwa [run_cons, trace_cons, next, out, hstep i hi] at hcons
      obtain ⟨-, hevents⟩ := hrest (List.replicate n i) List.length_replicate
        fun j hj => List.eq_of_mem_replicate hj ▸ hi
      refine ⟨_, hevents.symm, n, fun is hlen his => ?_⟩
      obtain ⟨hended, htrace⟩ := hrest is hlen his
      exact ⟨hended, List.append_cancel_left (htrace.trans hevents.symm)⟩
  · rintro ⟨rest, rfl, n, h⟩
    refine ⟨n + 1, fun is hlen his => ?_⟩
    cases is with
    | nil => cases hlen
    | cons j is =>
      obtain ⟨hj, hjs⟩ := List.forall_mem_cons.mp his
      obtain ⟨hended, htrace⟩ := h is (by simpa using hlen) hjs
      rw [run_cons, trace_cons, next, out, hstep j hj, htrace]
      exact ⟨hended, rfl⟩

end Ends

/-! ## Components -/

section Component

variable {σ' ι' ε' : Type*} (m' : Machine σ' ι' ε')

/-- What a run hands on to a component of the machine, if `g` says which inputs
    of the component belong to a step. -/
def feed (g : σ → ι → List ι') : σ → List ι → List ι'
  | _, []      => []
  | s, i :: is => g s i ++ feed g (m.next s i) is

variable {f : σ → σ'} {g : σ → ι → List ι'}

/-- A component that follows every step follows every run. -/
theorem run_feed (hnext : ∀ s i, m'.run (f s) (g s i) = f (m.next s i)) (s : σ) (is : List ι) :
    m'.run (f s) (m.feed g s is) = f (m.run s is) := by
  induction is generalizing s with
  | nil => rfl
  | cons i is ih => rw [feed, run_append, hnext, ih, run_cons]

/-- An observer who cannot tell a step from that of the component cannot tell
    the runs apart. -/
theorem foldl_trace_feed {α : Type*} {obs : α → ε → α} {obs' : α → ε' → α}
    (hnext : ∀ s i, m'.run (f s) (g s i) = f (m.next s i))
    (hout : ∀ s i a, (m'.trace (f s) (g s i)).foldl obs' a = (m.out s i).foldl obs a)
    (s : σ) (is : List ι) (a : α) :
    (m'.trace (f s) (m.feed g s is)).foldl obs' a = (m.trace s is).foldl obs a := by
  induction is generalizing s a with
  | nil => rfl
  | cons i is ih =>
    rw [feed, trace_append, trace_cons, List.foldl_append, List.foldl_append, hout, hnext, ih]

/-- A component gets inputs that it allows if it does at every allowed step from a
    state of an invariant. -/
theorem admits_feed {ok' : σ' → ι' → Prop} {ok : σ → ι → Prop} {I : σ → Prop}
    (hnext : ∀ s i, m'.run (f s) (g s i) = f (m.next s i))
    (hinv : ∀ s i, I s → ok s i → I (m.next s i))
    (hok : ∀ s i, I s → ok s i → m'.Admits ok' (f s) (g s i)) {s : σ} (h0 : I s) {is : List ι}
    (hadm : m.Admits ok s is) : m'.Admits ok' (f s) (m.feed g s is) := by
  induction is generalizing s with
  | nil => trivial
  | cons i is ih =>
    rw [feed, admits_append, hnext]
    exact ⟨hok s i h0 hadm.1, ih (hinv s i h0 hadm.1) hadm.2⟩

end Component

end Machine
