-- SUMMARY: Threads that come and go: the kernel has a task in hand from its creation until it ends, and no longer.
import SmartAlarm.Rtos.Soundness

/-!
# Threads

The running task and the tasks of all lists are those that the kernel can still
find. A call puts the running task into another place or takes a task from one
place to the next, so the only tasks that come are those that are created, and
the only ones that go are those that end. A delay without an end is an end, too:
the task is put into no list.
-/

namespace Rtx

open Function PriorityQueue Scheduler

namespace Scheduler

section

variable {s : Scheduler Ptr} {x y : Ptr} {l : List Ptr} {d n : Nat}

/-- The tasks of the lists. -/
def Listed (s : Scheduler Ptr) (x : Ptr) : Prop :=
  x ∈ s.ready ∨ (∃ n, x ∈ s.waiting n) ∨ x ∈ s.asleep.map Prod.fst

end

end Scheduler

/-! ## Every call -/

section

variable {k : Kernel} {s : Scheduler Ptr} {x : Ptr} {call : SysCall} {calls : List SysCall}

/-- The lists of the kernel, and what no two of them share. A task that waits for a token
    may be asleep as well, until its time is over. -/
structure Kernel.Placed (k : Kernel) (run : Ptr) (ready : List Ptr) (waiting : Nat → List Ptr)
    (asleep : List Ptr) : Prop where
  os_tsk : k.run = some run
  os_rdy : Linked.Chain k.p_lnk .os_rdy ready ∧ ready.Nodup
  scb : ∀ n, Linked.Chain k.p_lnk (.scb n) (waiting n) ∧ (waiting n).Nodup
  os_dly : Linked.Chain k.p_dlnk .os_dly asleep ∧ asleep.Nodup
  run_out : run ∉ ready ∧ (∀ n, run ∉ waiting n) ∧ run ∉ asleep
  ready_out : ∀ x ∈ ready, (∀ n, x ∉ waiting n) ∧ x ∉ asleep
  waiting_out : ∀ m n, m ≠ n → ∀ x ∈ waiting m, x ∉ waiting n

/-- In every run a task is in one place only. -/
theorem one_place (os_maxtaskrun : Nat) {count : Nat → Nat} (hcount : ∀ n, count n ≤ 65535)
    (hadm : kernel.Admits SysEnabled (some (.boot os_maxtaskrun count)) calls) :
    ∃ k run ready waiting asleep, kernel.run (some (.boot os_maxtaskrun count)) calls = some k ∧
      k.Placed run ready waiting asleep := by
  obtain ⟨k, hk, h, -⟩ := (serves_boot os_maxtaskrun hcount).run hadm
  have hqueues := h.queues.queues
  refine ⟨k, _, _, _, _, hk, h.run, ⟨hqueues.chain none, hqueues.nodup none⟩,
    fun n => ⟨hqueues.chain (some n), hqueues.nodup (some n)⟩, ⟨h.delays.chain, h.delays.nodup⟩,
    ⟨h.run_out.1 none, fun n => h.run_out.1 (some n), h.run_out.2⟩,
    fun x hx => h.tracks.out_of_ready (h.tracks.ready x hx), fun m n hne x hm hn => hne ?_⟩
  exact Option.some.inj (hqueues.apart (some m) (some n) x hm hn)

theorem one_place_waiting :
    ∃ k run ready waiting asleep, kernel.run (some (.boot 1 fun _ => 0)) [.svcThreadCreate 0 3,
        .svcSemaphoreWait 0 7, .systick] = some k ∧
      k.Placed run ready waiting asleep :=
  one_place 1 (fun _ => Nat.zero_le _) (by decide)

end

end Rtx
