-- SUMMARY: The user timers refine countdowns: what happens to the list happens to the countdown of every timer.
import SmartAlarm.Rtos.Countdown
import SmartAlarm.Rtos.TimerList

/-!
# Timers and countdowns

All running timers share one list of differences, and an operation on one of them
changes what its neighbours store. Still each of them stands for a countdown of its
own: a call is a call on one countdown, and a tick is a tick of all.
-/

namespace Rtx

open Function DeltaList PriorityQueue

variable {n : Nat} {k k' : Timers n} {l l' : List (Fin n × Nat)} {x : Fin n} {c : Countdown} {t : Nat}

/-! ## Timers that run -/

/-- The timers in the list are those that run, with a time to go and a period. -/
structure Running (k : Timers n) (l : List (Fin n × Nat)) : Prop where
  listed : Listed k l
  runs : ∀ x, k.state x = .osTimerRunning ↔ ∃ t, (x, t) ∈ l
  time : ∀ y ∈ l, 0 < y.2 ∧ y.2 < 4294967296
  period : ∀ y ∈ l, 0 < k.icnt y.1 ∧ k.icnt y.1 < 4294967296

/-- The countdown shows what is stored for the timer `x`. -/
structure Follows (c : Countdown) (k : Timers n) (l : List (Fin n × Nat)) (x : Fin n) : Prop where
  state : c.state = k.state x
  type : c.type = k.type x
  icnt : c.icnt = k.icnt x
  tcnt : c.state = .osTimerRunning → (x, c.tcnt) ∈ l

theorem Listed.unique (h : Listed k l) {u : Nat} (ht : (x, t) ∈ l) (hu : (x, u) ∈ l) : t = u :=
  congrArg Prod.snd (List.inj_on_of_nodup_map h.nodup ht hu rfl)

/-! ## The tick -/

/-- What is due after a tick, and what is not. -/
theorem Running.split (h : Running k l) : ∃ due rest, elapse 1 l = due ++ rest ∧ (∀ y ∈ due, y.2 = 0) ∧
    (∀ y ∈ rest, 0 < y.2) ∧ (∀ x, x ∈ due.map Prod.fst ↔ (x, 1) ∈ l) ∧
    ∀ z, z ∈ rest ↔ 0 < z.2 ∧ (z.1, z.2 + 1) ∈ l := by
  have htimely : Timely (elapse 1 l) := h.listed.lagged.timely.tick
  have hmem (z : Fin n × Nat) : z ∈ elapse 1 l ↔ (z.1, z.2 + 1) ∈ l := by
    constructor
    · intro hz
      obtain ⟨y, hy, rfl⟩ := List.mem_map.mp hz
      have hpos := (h.time y hy).1
      rwa [show y.2 - 1 + 1 = y.2 by omega]
    · exact fun hz => List.mem_map.mpr ⟨_, hz, rfl⟩
  have hparts := List.takeWhile_append_dropWhile (p := fun y : Fin n × Nat => y.2 = 0) (l := elapse 1 l)
  have hdue : ∀ y ∈ (elapse 1 l).takeWhile fun y => y.2 = 0, y.2 = 0 := fun y hy => by
    simpa using List.mem_takeWhile_imp hy
  refine ⟨_, _, hparts.symm, hdue, fun y hy => htimely.pos_of_mem_dropWhile hy, fun x => ?_, fun z => ?_⟩
  · constructor
    · intro hx
      obtain ⟨y, hy, rfl⟩ := List.mem_map.mp hx
      have hy' := (hmem y).mp (List.takeWhile_subset _ hy)
      rwa [hdue y hy] at hy'
    · intro hx
      exact List.mem_map.mpr ⟨(x, 0), htimely.mem_takeWhile ((hmem (x, 0)).mpr hx) rfl, rfl⟩
  · constructor
    · intro hz
      exact ⟨htimely.pos_of_mem_dropWhile hz, (hmem z).mp (List.dropWhile_subset _ hz)⟩
    · rintro ⟨hpos, hz⟩
      have hin := (hmem z).mpr hz
      rw [← hparts, List.mem_append] at hin
      exact hin.resolve_left fun hleft => hpos.ne' (hdue z hleft)

/-- A tick, as the list sees it. -/
structure Ticked (k k' : Timers n) (l l' : List (Fin n × Nat)) : Prop where
  listed : Listed k' l'
  type : k'.type = k.type
  icnt : k'.icnt = k.icnt
  state : ∀ x, k'.state x =
    if (x, 1) ∈ l ∧ k.type x ≠ .osTimerPeriodic then .osTimerStopped else k.state x
  mem : ∀ z, z ∈ l' ↔ (0 < z.2 ∧ (z.1, z.2 + 1) ∈ l) ∨
    (z.1, 1) ∈ l ∧ k.type z.1 = .osTimerPeriodic ∧ z.2 = k.icnt z.1

/-- `sysTimerTick` -/
theorem Running.sysTimerTick (h : Running k l) : ∃ k' l' due, k.sysTimerTick = some (k', due) ∧
    Ticked k k' l l' ∧ due.Nodup ∧ ∀ x, x ∈ due ↔ (x, 1) ∈ l := by
  cases l with
  | nil =>
    have hnone : k.os_timer_head = none := h.listed.starts
    refine ⟨k, [], [], ?_, ⟨h.listed, rfl, rfl, by simp, by simp⟩, List.nodup_nil, by simp⟩
    rw [Timers.sysTimerTick, hnone]
  | cons y l =>
    obtain ⟨x, t⟩ := y
    have hfirst : k.os_timer_head = some x := h.listed.starts.1
    have hcode : k.tcnt x = t := (Nat.zero_add _).symm.trans h.listed.lagged.1
    obtain ⟨hpos, hlt⟩ : 0 < t ∧ t < 4294967296 := h.time (x, t) List.mem_cons_self
    have hpred : u32 (k.tcnt x + 4294967295) = t - 1 := by
      rw [hcode, u32]
      omega
    have helapsed := h.listed.elapse (d := 1) (Nat.succ_le_of_lt hpos)
    obtain ⟨due, rest, hsplit, hdue, hrest, hmemdue, hmemrest⟩ := h.split
    rw [hsplit] at helapsed
    have hicnt : ∀ y ∈ due, 0 < k.icnt y.1 := fun y hy =>
      (h.period (y.1, 1) ((hmemdue y.1).mp (List.mem_map_of_mem hy))).1
    have hhead : (due ++ rest).head? = some (x, t - 1) := by
      rw [← hsplit]
      rfl
    have hp : ∀ y ∈ due.head?, some x = some y.1 := by
      intro y hy
      cases due with
      | nil => cases hy
      | cons z due =>
        obtain rfl : z = y := Option.some.inj hy
        obtain rfl : z = (x, t - 1) := Option.some.inj hhead
        rfl
    have hend : due = [] → ∀ y ∈ some x, update k.tcnt x (t - 1) y ≠ 0 := by
      rintro rfl y hy
      obtain rfl : x = y := Option.some.inj hy
      have hmem : (x, t - 1) ∈ rest := List.mem_of_mem_head? hhead
      rw [update_self]
      exact (hrest _ hmem).ne'
    have hlen : due.length < n + 1 := by
      have hle := length_le_of_nodup helapsed.nodup
      rw [List.length_append] at hle
      omega
    obtain ⟨k', l', hloop, hlisted, htype, hcount, hstate, hmem⟩ :=
      helapsed.tick_loop hdue hrest hicnt hp hend hlen
    -- `due` is what the code puts into the queue, in the order of the list.
    refine ⟨k', l', due.map Prod.fst, ?_, ⟨hlisted, htype, hcount, fun y => ?_, fun z => ?_⟩, ?_, hmemdue⟩
    · rw [Timers.sysTimerTick, hfirst]
      dsimp only
      rw [hpred, ← hloop, hfirst]
    · rw [hstate]
      exact if_congr (and_congr_left fun _ => hmemdue y) rfl rfl
    · rw [hmem, hmemrest, hmemdue]
    · have hnodup := helapsed.nodup
      rw [List.map_append] at hnodup
      exact hnodup.of_append_left

theorem Ticked.running (h : Ticked k k' l l') (hr : Running k l) : Running k' l' := by
  refine ⟨h.listed, fun x => ?_, fun z hz => ?_, fun z hz => ?_⟩
  · rw [h.state]
    constructor
    · intro hrunning
      split at hrunning
      case isTrue => cases hrunning
      case isFalse hgo =>
        obtain ⟨t, ht⟩ := (hr.runs x).mp hrunning
        have hpos : 0 < t := (hr.time _ ht).1
        by_cases hone : t = 1
        · subst hone
          have hperiodic : k.type x = .osTimerPeriodic := by
            by_contra hne
            exact hgo ⟨ht, hne⟩
          exact ⟨_, (h.mem (x, k.icnt x)).mpr (.inr ⟨ht, hperiodic, rfl⟩)⟩
        · refine ⟨t - 1, (h.mem (x, t - 1)).mpr (.inl ⟨?_, ?_⟩)⟩
          · dsimp only
            omega
          · rwa [show t - 1 + 1 = t by omega]
    · rintro ⟨t, ht⟩
      rcases (h.mem (x, t)).mp ht with ⟨hpos, ht⟩ | ⟨hone, hperiodic, -⟩
      · rw [if_neg]
        · exact (hr.runs x).mpr ⟨_, ht⟩
        · rintro ⟨hone, -⟩
          have heq := hr.listed.unique ht hone
          dsimp only at hpos
          omega
      · rw [if_neg fun hboth => hboth.2 hperiodic]
        exact (hr.runs x).mpr ⟨_, hone⟩
  · rcases (h.mem z).mp hz with ⟨hpos, hz⟩ | ⟨hone, -, heq⟩
    · have hlt : z.2 + 1 < 4294967296 := (hr.time _ hz).2
      exact ⟨hpos, by omega⟩
    · rw [heq]
      exact hr.period (z.1, 1) hone
  · rw [h.icnt]
    rcases (h.mem z).mp hz with ⟨-, hz⟩ | ⟨hone, -, -⟩
    · exact hr.period (z.1, z.2 + 1) hz
    · exact hr.period (z.1, 1) hone

/-- A tick changes neither the type nor the period of a timer. -/
theorem Follows.ticked {c' : Countdown} (hf : Follows c k l x) (h : Ticked k k' l l')
    (hstate : c'.state = k'.state x) (htype : c'.type = c.type) (hicnt : c'.icnt = c.icnt)
    (htcnt : c'.state = .osTimerRunning → (x, c'.tcnt) ∈ l') : Follows c' k' l' x where
  state := hstate
  type := htype.trans (hf.type.trans (congrFun h.type x).symm)
  icnt := hicnt.trans (hf.icnt.trans (congrFun h.icnt x).symm)
  tcnt := htcnt

/-- The countdown of a timer ticks with the list. -/
theorem Follows.tick (hf : Follows c k l x) (hr : Running k l) (h : Ticked k k' l l') :
    Follows c.tick.1 k' l' x ∧ c.tick.2 = if (x, 1) ∈ l then [.put] else [] := by
  have hstate := h.state x
  by_cases hrunning : c.state = .osTimerRunning
  · have ht := hf.tcnt hrunning
    have hpos : 0 < c.tcnt := (hr.time _ ht).1
    have hgo : ¬ c.state ≠ .osTimerRunning := not_not.mpr hrunning
    by_cases hmore : 1 < c.tcnt
    · have hnot : (x, 1) ∉ l := fun hone => Nat.ne_of_gt hmore (hr.listed.unique ht hone)
      have htick : c.tick = ({ c with tcnt := c.tcnt - 1 }, []) := (if_neg hgo).trans (if_pos hmore)
      rw [if_neg fun hboth => hnot hboth.1] at hstate
      rw [htick, if_neg hnot]
      refine ⟨hf.ticked h (hf.state.trans hstate.symm) rfl rfl fun _ => ?_, rfl⟩
      refine (h.mem (x, c.tcnt - 1)).mpr (.inl ⟨Nat.sub_pos_of_lt hmore, ?_⟩)
      rwa [show c.tcnt - 1 + 1 = c.tcnt by omega]
    · have hone : (x, 1) ∈ l := by rwa [show c.tcnt = 1 by omega] at ht
      rw [if_pos hone]
      by_cases hperiodic : c.type = .osTimerPeriodic
      · have htick : c.tick = ({ c with tcnt := c.icnt }, [.put]) :=
          (if_neg hgo).trans ((if_neg hmore).trans (if_pos hperiodic))
        rw [hf.type] at hperiodic
        rw [if_neg fun hboth => hboth.2 hperiodic] at hstate
        rw [htick]
        refine ⟨hf.ticked h (hf.state.trans hstate.symm) rfl rfl fun _ => ?_, rfl⟩
        exact (h.mem (x, c.icnt)).mpr (.inr ⟨hone, hperiodic, hf.icnt⟩)
      · have htick : c.tick = ({ c with state := .osTimerStopped }, [.put]) :=
          (if_neg hgo).trans ((if_neg hmore).trans (if_neg hperiodic))
        rw [hf.type] at hperiodic
        rw [if_pos ⟨hone, hperiodic⟩] at hstate
        rw [htick]
        refine ⟨hf.ticked h hstate.symm rfl rfl fun hrun => ?_, rfl⟩
        cases hrun
  · -- The timer is not in the list, so the tick passes it by.
    have hidle : ∀ t, (x, t) ∉ l := fun t ht => hrunning (hf.state.trans ((hr.runs x).mpr ⟨t, ht⟩))
    have htick : c.tick = (c, []) := if_pos hrunning
    rw [if_neg fun hboth => hidle 1 hboth.1] at hstate
    rw [htick, if_neg (hidle 1)]
    exact ⟨hf.ticked h (hf.state.trans hstate.symm) rfl rfl fun hrun => absurd hrun hrunning, rfl⟩

/-! ## Each timer by itself -/

/-- What happens from `k` to `k'` is for every timer what happens to its countdown. -/
structure Mirrors (k : Timers n) (l : List (Fin n × Nat)) (k' : Timers n) (l' : List (Fin n × Nat))
    (inputs : Fin n → List CountdownInput) (events : Fin n → List TimerEvent) : Prop where
  running : Running k' l'
  follows : ∀ x c, Follows c k l x →
    Follows (countdown.run c (inputs x)) k' l' x ∧ countdown.trace c (inputs x) = events x

/-- What the timer `x` sees of an input. -/
def inputOf (x : Fin n) : TimerInput n → List CountdownInput
  | .call pt c => if pt = x then [.call c] else []
  | .sysTimerTick => ticking 1
  | .sysUserTimerUpdate sleep_time => ticking sleep_time.toNat

/-- What is seen of the timer `x`. -/
def eventOf (x : Fin n) (event : Fin n × TimerEvent) : Option TimerEvent :=
  if event.1 = x then some event.2 else none

theorem seen_self (event : TimerEvent) : [(x, event)].filterMap (eventOf x) = [event] := by
  simp [eventOf]

theorem seen_of_ne {pt : Fin n} (hne : pt ≠ x) (event : TimerEvent) :
    [(pt, event)].filterMap (eventOf x) = [] := by
  simp [eventOf, hne]

variable {inputs inputs' : Fin n → List CountdownInput} {events events' : Fin n → List TimerEvent}

theorem Mirrors.refl (hr : Running k l) : Mirrors k l k l (fun _ => []) fun _ => [] :=
  ⟨hr, fun _ _ hf => ⟨hf, rfl⟩⟩

theorem Mirrors.trans {k'' : Timers n} {l'' : List (Fin n × Nat)} (h : Mirrors k l k' l' inputs events)
    (h' : Mirrors k' l' k'' l'' inputs' events') :
    Mirrors k l k'' l'' (fun x => inputs x ++ inputs' x) fun x => events x ++ events' x := by
  refine ⟨h'.running, fun x c hf => ?_⟩
  obtain ⟨hf₁, htrace₁⟩ := h.follows x c hf
  obtain ⟨hf₂, htrace₂⟩ := h'.follows x _ hf₁
  rw [Machine.run_append, Machine.trace_append, htrace₁, htrace₂]
  exact ⟨hf₂, rfl⟩

/-- What is seen of the timers that are put into the queue. -/
abbrev puts (due : List (Fin n)) (x : Fin n) : List TimerEvent := List.replicate (due.count x) .put

theorem puts_append (due due' : List (Fin n)) (x : Fin n) : puts (due ++ due') x = puts due x ++ puts due' x := by
  rw [puts, List.count_append, List.replicate_add]

theorem Running.mirrors_tick (h : Running k l) : ∃ k' l' due, k.sysTimerTick = some (k', due) ∧
    Mirrors k l k' l' (fun _ => ticking 1) (puts due) := by
  obtain ⟨k', l', due, htick, hticked, hnodup, hdue⟩ := h.sysTimerTick
  refine ⟨k', l', due, htick, hticked.running h, fun x c hf => ?_⟩
  obtain ⟨hnext, hput⟩ := hf.tick h hticked
  refine ⟨hnext, (List.append_nil _).trans (hput.trans ?_)⟩
  by_cases hone : (x, 1) ∈ l
  · rw [if_pos hone, puts, List.count_eq_one_of_mem hnodup ((hdue x).mpr hone)]
    rfl
  · rw [if_neg hone, puts, List.count_eq_zero_of_not_mem fun hx => hone ((hdue x).mp hx)]
    rfl

/-! ## The end of a sleep -/

/-- Ticks at which nothing is due are taken from the first timer of the list. -/
theorem Running.mirrors_elapse (h : Running k ((x, t) :: l)) {d : Nat} (hd : d < t) :
    Mirrors k ((x, t) :: l) { k with tcnt := update k.tcnt x (t - d) } (elapse d ((x, t) :: l))
      (fun _ => ticking d) fun _ => [] := by
  have hfirst : ∀ y ∈ (x, t) :: l, t ≤ y.2 :=
    List.forall_mem_cons.mpr ⟨le_refl t, (List.pairwise_cons.mp h.listed.lagged.timely).1⟩
  have hmem {z : Fin n × Nat} (hz : z ∈ (x, t) :: l) : (z.1, z.2 - d) ∈ elapse d ((x, t) :: l) :=
    List.mem_map_of_mem hz
  refine ⟨⟨h.listed.elapse hd.le, fun y => ?_, fun z hz => ?_, fun z hz => ?_⟩, fun y c hf => ?_⟩
  · refine (h.runs y).trans ⟨fun ⟨u, hu⟩ => ⟨_, hmem hu⟩, ?_⟩
    rintro ⟨u, hu⟩
    obtain ⟨z, hz, heq⟩ := List.mem_map.mp hu
    obtain ⟨rfl, -⟩ := Prod.mk.inj heq
    exact ⟨_, hz⟩
  · obtain ⟨y, hy, rfl⟩ := List.mem_map.mp hz
    have hle := hfirst y hy
    have hlt := (h.time y hy).2
    dsimp only
    omega
  · obtain ⟨y, hy, rfl⟩ := List.mem_map.mp hz
    exact h.period y hy
  · by_cases hrunning : c.state = .osTimerRunning
    · have hin := hf.tcnt hrunning
      obtain ⟨hrun, htrace⟩ := countdown_silent hrunning (hd.trans_le (hfirst _ hin))
      rw [hrun, htrace]
      exact ⟨⟨hf.state, hf.type, hf.icnt, fun _ => hmem hin⟩, rfl⟩
    · obtain ⟨hrun, htrace⟩ := countdown_idle hrunning d
      rw [hrun, htrace]
      exact ⟨⟨hf.state, hf.type, hf.icnt, fun hgo => absurd hgo hrunning⟩, rfl⟩

theorem Running.mirrors_none (h : Running k []) (s : Nat) :
    Mirrors k [] k [] (fun _ => ticking s) fun _ => [] := by
  refine ⟨h, fun x c hf => ?_⟩
  have hidle : c.state ≠ .osTimerRunning := fun hrunning => List.not_mem_nil (hf.tcnt hrunning)
  obtain ⟨hrun, htrace⟩ := countdown_idle hidle s
  rw [hrun]
  exact ⟨hf, htrace⟩

/-- The loop of `sysUserTimerUpdate` goes from one due tick to the next. -/
theorem Running.update_loop (h : Running k l) {s m : Nat} (hm : s < m) :
    ∃ k' l' due, Timers.update_loop m k s = some (k', due) ∧
      Mirrors k l k' l' (fun _ => ticking s) (puts due) := by
  induction m generalizing k l s with
  | zero => exact absurd hm (Nat.not_lt_zero s)
  | succ m ih =>
    rw [Timers.update_loop]
    cases l with
    | nil =>
      have hnone : k.os_timer_head = none := h.listed.starts
      rw [hnone]
      exact ⟨k, [], [], rfl, h.mirrors_none s⟩
    | cons y l =>
      obtain ⟨x, t⟩ := y
      have hfirst : k.os_timer_head = some x := h.listed.starts.1
      have hcode : k.tcnt x = t := (Nat.zero_add _).symm.trans h.listed.lagged.1
      have hpos : 0 < t := (h.time (x, t) List.mem_cons_self).1
      rw [hfirst]
      dsimp only
      rw [hcode]
      by_cases hzero : s = 0
      · rw [if_pos hzero, hzero]
        exact ⟨k, _, [], rfl, .refl h⟩
      · rw [if_neg hzero]
        by_cases hdue : t ≤ s
        · -- Nothing is due before the last of the `t` ticks, and `sysTimerTick` is that one.
          have hlast : Mirrors k _ { k with tcnt := update k.tcnt x 1 } _ _ _ :=
            (show t - (t - 1) = 1 by omega) ▸ h.mirrors_elapse (Nat.sub_one_lt hpos.ne')
          obtain ⟨k₁, l₁, due, htick, hmirrors⟩ := hlast.running.mirrors_tick
          obtain ⟨k₂, l₂, due', hloop, hmirrors'⟩ := ih hmirrors.running (show s - t < m by omega)
          refine ⟨k₂, l₂, due ++ due', ?_, ?_⟩
          · rw [hfirst] at htick
            rw [if_pos hdue, htick]
            refine (Option.bind_some _ _).trans ?_
            rw [hloop]
            rfl
          · have hall := (hlast.trans hmirrors).trans hmirrors'
            have hticks : ticking (t - 1) ++ ticking 1 ++ ticking (s - t) = ticking s := by
              rw [← ticking_add, ← ticking_add]
              congr 1
              omega
            simp only [hticks, List.nil_append, ← puts_append] at hall
            exact hall
        · rw [if_neg hdue, ← hfirst]
          exact ⟨_, _, [], rfl, h.mirrors_elapse (Nat.not_le.mp hdue)⟩

/-! ## The calls -/

theorem Running.not_mem (h : Running k l) (hidle : k.state x ≠ .osTimerRunning) : x ∉ l.map Prod.fst := by
  intro hx
  obtain ⟨y, hy, rfl⟩ := List.mem_map.mp hx
  exact hidle ((h.runs y.1).mpr ⟨y.2, hy⟩)

/-- What a call on `pt` leaves of the other timers. -/
structure Touched (pt : Fin n) (k : Timers n) (l : List (Fin n × Nat)) (k' : Timers n)
    (l' : List (Fin n × Nat)) : Prop where
  listed : Listed k' l'
  state : ∀ x, x ≠ pt → k'.state x = k.state x
  type : ∀ x, x ≠ pt → k'.type x = k.type x
  icnt : ∀ x, x ≠ pt → k'.icnt x = k.icnt x
  mem : ∀ z, z.1 ≠ pt → (z ∈ l' ↔ z ∈ l)

variable {pt : Fin n} {call : TimerCall} {event : TimerEvent}

theorem Touched.running (h : Touched pt k l k' l') (hr : Running k l)
    (hruns : k'.state pt = .osTimerRunning ↔ ∃ t, (pt, t) ∈ l')
    (htime : ∀ t, (pt, t) ∈ l' →
      (0 < t ∧ t < 4294967296) ∧ 0 < k'.icnt pt ∧ k'.icnt pt < 4294967296) : Running k' l' := by
  refine ⟨h.listed, fun x => ?_, fun y hy => ?_, fun y hy => ?_⟩
  · by_cases hx : x = pt
    · rw [hx]
      exact hruns
    · rw [h.state x hx, hr.runs]
      exact exists_congr fun t => (h.mem (x, t) hx).symm
  · by_cases hx : y.1 = pt
    · exact (htime y.2 (hx ▸ hy)).1
    · exact hr.time y ((h.mem y hx).mp hy)
  · by_cases hx : y.1 = pt
    · rw [hx]
      exact (htime y.2 (hx ▸ hy)).2
    · rw [h.icnt y.1 hx]
      exact hr.period y ((h.mem y hx).mp hy)

/-- The timer itself is out of the list. -/
theorem Touched.gone (h : Touched pt k l k' l') (hr : Running k l) (hout : pt ∉ l'.map Prod.fst)
    (hidle : k'.state pt ≠ .osTimerRunning) : Running k' l' := by
  have hnone : ∀ t, (pt, t) ∉ l' := fun t ht => hout (List.mem_map_of_mem ht)
  refine h.running hr ?_ fun t ht => absurd ht (hnone t)
  simp [hidle, hnone]

theorem Touched.mirrors (h : Touched pt k l k' l') (hr : Running k' l')
    (hown : ∀ c, Follows c k l pt → Follows (c.call call).1 k' l' pt ∧ (c.call call).2 = event) :
    Mirrors k l k' l' (inputOf · (.call pt call)) fun x => [(pt, event)].filterMap (eventOf x) := by
  refine ⟨hr, fun x c hf => ?_⟩
  by_cases hx : pt = x
  · obtain ⟨hf', hevent⟩ := hown c (hx ▸ hf)
    subst hx
    rw [inputOf, if_pos rfl, seen_self]
    refine ⟨hf', ?_⟩
    rw [← hevent]
    rfl
  · have hne := Ne.symm hx
    rw [inputOf, if_neg hx, seen_of_ne hx]
    exact ⟨⟨hf.state.trans (h.state x hne).symm, hf.type.trans (h.type x hne).symm,
      hf.icnt.trans (h.icnt x hne).symm, fun hgo => (h.mem _ hne).mpr (hf.tcnt hgo)⟩, rfl⟩

/-- A call that changes nothing. -/
theorem Running.mirrors_refused (h : Running k l) (hown : ∀ c, Follows c k l pt → c.call call = (c, event)) :
    Mirrors k l k l (inputOf · (.call pt call)) fun x => [(pt, event)].filterMap (eventOf x) := by
  have htouched : Touched pt k l k l := by
    constructor <;> simp [h.listed]
  refine htouched.mirrors h fun c hf => ?_
  rw [hown c hf]
  exact ⟨hf, rfl⟩

theorem Running.svcTimerCreate (h : Running k l) (pt : Fin n) (type : TimerType) :
    Mirrors k l (k.svcTimerCreate pt type).1 l (inputOf · (.call pt (.svcTimerCreate type)))
      fun x => [(pt, .created (k.svcTimerCreate pt type).2)].filterMap (eventOf x) := by
  by_cases hstate : k.state pt = .osTimerInvalid
  · have hidle : k.state pt ≠ .osTimerRunning := by simp [hstate]
    have hout := h.not_mem hidle
    rw [Timers.svcTimerCreate, if_neg (not_not.mpr hstate)]
    have htouched : Touched pt k l { k with
        next := update k.next pt none
        state := update k.state pt .osTimerStopped
        type := update k.type pt type } l := by
      refine ⟨⟨h.listed.starts.congr ?_, h.listed.lagged, h.listed.nodup⟩, ?_, ?_, ?_, ?_⟩
      · exact fun y hy => update_of_ne (ne_of_mem_of_not_mem hy hout) _ _
      · exact fun x hx => update_of_ne hx _ _
      · exact fun x hx => update_of_ne hx _ _
      · exact fun x _ => rfl
      · exact fun z _ => Iff.rfl
    refine htouched.mirrors (htouched.gone h hout ?_) fun c hf => ?_
    · exact (update_self pt _ k.state).trans_ne (by simp)
    · rw [Countdown.call, if_neg (not_not.mpr (hf.state.trans hstate))]
      refine ⟨⟨(update_self pt _ k.state).symm, (update_self pt type k.type).symm, hf.icnt, ?_⟩, rfl⟩
      intro hgo
      cases hgo
  · rw [Timers.svcTimerCreate, if_pos hstate]
    refine h.mirrors_refused fun c hf => ?_
    rw [Countdown.call, if_pos (hf.state ▸ hstate)]

/-- `rt_timer_remove` of a timer that runs, whatever `state` says by then. -/
theorem Running.remove (h : Running k l) (hrunning : k.state pt = .osTimerRunning) (state : Fin n → TimerState) :
    ∃ next tcnt head l',
      { k with state := state }.rt_timer_remove pt =
        some (true, { k with state := state }.relist next tcnt head) ∧
      Listed ({ k with state := state }.relist next tcnt head) l' ∧ pt ∉ l'.map Prod.fst ∧
      ∀ z, z.1 ≠ pt → (z ∈ l' ↔ z ∈ l) := by
  obtain ⟨t, ht⟩ := (h.runs pt).mp hrunning
  obtain ⟨a, b, rfl⟩ := List.append_of_mem ht
  have hlisted : Listed { k with state := state } (a ++ (pt, t) :: b) :=
    ⟨h.listed.starts, h.listed.lagged, h.listed.nodup⟩
  obtain ⟨next, tcnt, head, hremove, hlisted'⟩ := hlisted.remove fun y hy =>
    (h.time y (List.mem_append_right _ (List.mem_cons_of_mem _ hy))).2
  refine ⟨next, tcnt, head, a ++ b, hremove, hlisted', ?_, fun z hz => ?_⟩
  · have hnodup := h.listed.nodup
    rw [List.map_append, List.map_cons] at hnodup
    rw [List.map_append]
    exact (List.nodup_cons.mp (List.nodup_middle.mp hnodup)).1
  · have hne : z ≠ (pt, t) := fun heq => hz (congrArg Prod.fst heq)
    simp [hne]

/-- `rt_timer_insert` of a timer that is said to run, but is not in the list. -/
theorem Touched.insert (h : Touched pt k l k' l') (hr : Running k l) (hout : pt ∉ l'.map Prod.fst)
    (hrunning : k'.state pt = .osTimerRunning) (hicnt : 0 < k'.icnt pt ∧ k'.icnt pt < 4294967296)
    {d : Nat} (hd : 0 < d ∧ d < 4294967296) :
    ∃ next tcnt head l'', k'.rt_timer_insert pt d = some (k'.relist next tcnt head) ∧
      Running (k'.relist next tcnt head) l'' ∧ Touched pt k l (k'.relist next tcnt head) l'' ∧ (pt, d) ∈ l'' := by
  obtain ⟨next, tcnt, head, hinsert, hlisted⟩ := h.listed.insert hout d
  have hin : (pt, d) ∈ enqueue sooner (pt, d) l' := mem_enqueue.mpr (.inl rfl)
  have htouched : Touched pt k l (k'.relist next tcnt head) (enqueue sooner (pt, d) l') := by
    refine ⟨hlisted, h.state, h.type, h.icnt, fun z hz => ?_⟩
    rw [mem_enqueue, h.mem z hz, or_iff_right fun heq => hz (congrArg Prod.fst heq)]
  refine ⟨next, tcnt, head, _, hinsert, htouched.running hr ?_ fun t ht => ?_, htouched, hin⟩
  · exact iff_of_true hrunning ⟨d, hin⟩
  · obtain rfl : t = d := hlisted.unique ht hin
    exact ⟨hd, hicnt⟩

theorem Running.svcTimerStart (h : Running k l) (pt : Fin n) (millisec : UInt32) :
    ∃ k' l' status, k.svcTimerStart pt millisec = some (k', status) ∧
      Mirrors k l k' l' (inputOf · (.call pt (.svcTimerStart millisec)))
        fun x => [(pt, .returned status)].filterMap (eventOf x) := by
  rw [Timers.svcTimerStart]
  by_cases hzero : millisec = 0
  · rw [if_pos hzero]
    refine ⟨k, l, _, rfl, h.mirrors_refused fun c hf => ?_⟩
    rw [Countdown.call, if_pos hzero]
  · rw [if_neg hzero]
    have hpos := ticks_pos hzero
    cases hstate : k.state pt with
    | osTimerInvalid =>
      refine ⟨k, l, _, rfl, h.mirrors_refused fun c hf => ?_⟩
      rw [Countdown.call, if_neg hzero, hf.state, hstate]
    | osTimerStopped =>
      have hout := h.not_mem (x := pt) (by simp [hstate])
      have hready : Touched pt k l { k with
          state := update k.state pt .osTimerRunning
          icnt := update k.icnt pt (Timers.ticks millisec) } l := by
        refine ⟨⟨h.listed.starts, h.listed.lagged, h.listed.nodup⟩, ?_, ?_, ?_, ?_⟩
        · exact fun x hx => update_of_ne hx _ _
        · exact fun x _ => rfl
        · exact fun x hx => update_of_ne hx _ _
        · exact fun z _ => Iff.rfl
      obtain ⟨next, tcnt, head, l', hinsert, hrunning, htouched, hin⟩ :=
        hready.insert h hout (update_self pt _ k.state) (by simpa only [update_self] using hpos) hpos
      refine ⟨_, l', .osOK, (congrArg (Option.bind · _) hinsert).trans rfl,
        htouched.mirrors hrunning fun c hf => ?_⟩
      rw [Countdown.call, if_neg hzero, hf.state, hstate]
      exact ⟨⟨(update_self pt _ k.state).symm, hf.type, (update_self pt _ k.icnt).symm, fun _ => hin⟩, rfl⟩
    | osTimerRunning =>
      obtain ⟨t, ht⟩ := (h.runs pt).mp hstate
      obtain ⟨next, tcnt, head, l₁, hremove, hlisted, hout, hmem⟩ := h.remove hstate k.state
      have hready : Touched pt k l (k.relist next tcnt head) l₁ :=
        ⟨hlisted, fun _ _ => rfl, fun _ _ => rfl, fun _ _ => rfl, hmem⟩
      obtain ⟨next', tcnt', head', l', hinsert, hrunning, htouched, hin⟩ :=
        hready.insert h hout hstate (h.period (pt, t) ht) hpos
      refine ⟨_, l', .osOK, ?_, htouched.mirrors hrunning fun c hf => ?_⟩
      · refine (congrArg (Option.bind · _) hremove).trans ?_
        exact (congrArg (Option.bind · _) hinsert).trans rfl
      · rw [Countdown.call, if_neg hzero, hf.state, hstate]
        exact ⟨⟨hstate.symm, hf.type, hf.icnt, fun _ => hin⟩, rfl⟩

theorem Running.svcTimerStop (h : Running k l) (pt : Fin n) :
    ∃ k' l' status, k.svcTimerStop pt = some (k', status) ∧
      Mirrors k l k' l' (inputOf · (.call pt .svcTimerStop))
        fun x => [(pt, .returned status)].filterMap (eventOf x) := by
  rw [Timers.svcTimerStop]
  by_cases hstate : k.state pt = .osTimerRunning
  · obtain ⟨next, tcnt, head, l', hremove, hlisted, hout, hmem⟩ :=
      h.remove hstate (update k.state pt .osTimerStopped)
    have htouched : Touched pt k l
        ({ k with state := update k.state pt .osTimerStopped }.relist next tcnt head) l' :=
      ⟨hlisted, fun x hx => update_of_ne hx _ _, fun _ _ => rfl, fun _ _ => rfl, hmem⟩
    have hstopped := update_self pt TimerState.osTimerStopped k.state
    rw [if_neg (not_not.mpr hstate), hremove]
    refine ⟨_, l', .osOK, rfl, htouched.mirrors (htouched.gone h hout ?_) fun c hf => ?_⟩
    · exact hstopped.trans_ne (by simp)
    · rw [Countdown.call, if_neg (not_not.mpr (hf.state.trans hstate))]
      exact ⟨⟨hstopped.symm, hf.type, hf.icnt, fun hgo => by cases hgo⟩, rfl⟩
  · rw [if_pos hstate]
    refine ⟨k, l, _, rfl, h.mirrors_refused fun c hf => ?_⟩
    rw [Countdown.call, if_pos (hf.state ▸ hstate)]

theorem Running.svcTimerDelete (h : Running k l) (pt : Fin n) :
    ∃ k' l' status, k.svcTimerDelete pt = some (k', status) ∧
      Mirrors k l k' l' (inputOf · (.call pt .svcTimerDelete))
        fun x => [(pt, .returned status)].filterMap (eventOf x) := by
  rw [Timers.svcTimerDelete]
  have hinvalid := update_self pt TimerState.osTimerInvalid k.state
  cases hstate : k.state pt with
  | osTimerInvalid =>
    refine ⟨k, l, _, rfl, h.mirrors_refused fun c hf => ?_⟩
    rw [Countdown.call, if_pos (hf.state.trans hstate)]
  | osTimerStopped =>
    have hout := h.not_mem (x := pt) (by simp [hstate])
    have htouched : Touched pt k l { k with state := update k.state pt .osTimerInvalid } l :=
      ⟨⟨h.listed.starts, h.listed.lagged, h.listed.nodup⟩, fun x hx => update_of_ne hx _ _,
        fun _ _ => rfl, fun _ _ => rfl, fun _ _ => Iff.rfl⟩
    refine ⟨_, l, .osOK, rfl, htouched.mirrors (htouched.gone h hout ?_) fun c hf => ?_⟩
    · exact hinvalid.trans_ne (by simp)
    · rw [Countdown.call, if_neg (by simp [hf.state, hstate])]
      exact ⟨⟨hinvalid.symm, hf.type, hf.icnt, fun hgo => by cases hgo⟩, rfl⟩
  | osTimerRunning =>
    obtain ⟨next, tcnt, head, l', hremove, hlisted, hout, hmem⟩ := h.remove hstate k.state
    have htouched : Touched pt k l
        { k.relist next tcnt head with state := update k.state pt .osTimerInvalid } l' :=
      ⟨⟨hlisted.starts, hlisted.lagged, hlisted.nodup⟩, fun x hx => update_of_ne hx _ _,
        fun _ _ => rfl, fun _ _ => rfl, hmem⟩
    refine ⟨_, l', .osOK, (congrArg (Option.bind · _) hremove).trans rfl,
      htouched.mirrors (htouched.gone h hout ?_) fun c hf => ?_⟩
    · exact hinvalid.trans_ne (by simp)
    · rw [Countdown.call, if_neg (by simp [hf.state, hstate])]
      exact ⟨⟨hinvalid.symm, hf.type, hf.icnt, fun hgo => by cases hgo⟩, rfl⟩

/-! ## Runs -/

theorem seen_puts (due : List (Fin n)) (x : Fin n) :
    (due.map (·, TimerEvent.put)).filterMap (eventOf x) = puts due x := by
  induction due with
  | nil => rfl
  | cons y due ih =>
    rw [List.map_cons, ← List.singleton_append, List.filterMap_append, ih]
    by_cases hy : y = x
    · subst hy
      rw [seen_self, puts, puts, List.count_cons_self, List.replicate_succ]
      rfl
    · rw [seen_of_ne hy, puts, puts, List.count_cons_of_ne hy]
      rfl

/-- A call on one timer, a tick and the end of a sleep are for every timer what they would be
    if it were alone. -/
theorem Running.accept (h : Running k l) (i : TimerInput n) : ∃ k' l' seen, k.accept i = some (k', seen) ∧
    Mirrors k l k' l' (inputOf · i) fun x => seen.filterMap (eventOf x) := by
  cases i with
  | call pt c =>
    cases c with
    | svcTimerCreate type => exact ⟨_, l, _, rfl, h.svcTimerCreate pt type⟩
    | svcTimerStart millisec =>
      obtain ⟨k', l', status, hcall, hmirrors⟩ := h.svcTimerStart pt millisec
      refine ⟨k', l', _, ?_, hmirrors⟩
      rw [Timers.accept, Timers.serve, hcall]
      rfl
    | svcTimerStop =>
      obtain ⟨k', l', status, hcall, hmirrors⟩ := h.svcTimerStop pt
      refine ⟨k', l', _, ?_, hmirrors⟩
      rw [Timers.accept, Timers.serve, hcall]
      rfl
    | svcTimerDelete =>
      obtain ⟨k', l', status, hcall, hmirrors⟩ := h.svcTimerDelete pt
      refine ⟨k', l', _, ?_, hmirrors⟩
      rw [Timers.accept, Timers.serve, hcall]
      rfl
  | sysTimerTick =>
    obtain ⟨k', l', due, htick, hmirrors⟩ := h.mirrors_tick
    refine ⟨k', l', due.map (·, .put), ?_, ?_⟩
    · rw [Timers.accept, htick]
      rfl
    · rw [funext (seen_puts due)]
      exact hmirrors
  | sysUserTimerUpdate sleep_time =>
    obtain ⟨k', l', due, hupdate, hmirrors⟩ := h.update_loop (Nat.lt_succ_self sleep_time.toNat)
    refine ⟨k', l', due.map (·, .put), ?_, ?_⟩
    · rw [Timers.accept, Timers.sysUserTimerUpdate, hupdate]
      rfl
    · rw [funext (seen_puts due)]
      exact hmirrors

theorem Running.run (h : Running k l) (is : List (TimerInput n)) :
    ∃ k' l', (timers n).run (some k) is = some k' ∧
      Mirrors k l k' l' (fun x => is.flatMap (inputOf x))
        fun x => ((timers n).trace (some k) is).filterMap (eventOf x) := by
  induction is generalizing k l with
  | nil => exact ⟨k, l, rfl, .refl h⟩
  | cons i is ih =>
    obtain ⟨k₁, l₁, seen, haccept, hmirrors⟩ := h.accept i
    obtain ⟨k', l', hrun, hmirrors'⟩ := ih hmirrors.running
    have hstep : (timers n).step (some k) i = (some k₁, seen) := by
      rw [timers]
      dsimp only
      rw [Option.bind_some, haccept]
    refine ⟨k', l', ?_, ?_⟩
    · rw [Machine.run_cons, Machine.next, hstep]
      exact hrun
    · have hall := hmirrors.trans hmirrors'
      simp only [← List.flatMap_cons, ← List.filterMap_append] at hall
      rw [Machine.trace_cons, Machine.out, Machine.next, hstep]
      exact hall

theorem running_zeroed : Running (.zeroed n) [] := by
  refine ⟨⟨rfl, trivial, List.nodup_nil⟩, ?_, ?_, ?_⟩ <;> simp [Timers.zeroed]

theorem follows_zeroed (x : Fin n) : Follows .zeroed (.zeroed n) [] x :=
  ⟨rfl, rfl, rfl, fun hgo => by cases hgo⟩

/-- What is seen of a timer from any state on that can be reached. -/
theorem reached (is : List (TimerInput n)) (x : Fin n) :
    ∃ k c, (timers n).run (some (.zeroed n)) is = some k ∧ c.state = k.state x ∧ c.type = k.type x ∧
      ∀ later, ((timers n).trace (some k) later).filterMap (eventOf x) =
        countdown.trace c (later.flatMap (inputOf x)) := by
  obtain ⟨k, l, hrun, hmirrors⟩ := running_zeroed.run is
  have hf := (hmirrors.follows x _ (follows_zeroed x)).1
  refine ⟨k, _, hrun, hf.state, hf.type, fun later => ?_⟩
  obtain ⟨k', l', -, hmirrors'⟩ := hmirrors.running.run later
  exact (hmirrors'.follows x _ hf).2.symm

end Rtx
