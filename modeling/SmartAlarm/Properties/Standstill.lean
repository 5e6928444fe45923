-- SUMMARY: Whether the robot stands still while the alarm is answered: it depends on where its thread is when `main` stops the motors.
import SmartAlarm.Firmware.System
import SmartAlarm.Properties.AlarmPasses

/-!
# Standing still during an alarm

`main` stops both motors when it enters the alarm branch, but the robot thread
goes on, also between the two stops. Which commands are still to come is a matter
of the thread alone: of its place and of `tMotor`, the only thing that ends its loop.
-/

namespace Firmware

/-! ## The robot thread -/

/-- A command to turn. -/
def Event.drives : Event → Bool
  | .speed _ v => v ≠ 0
  | _          => false

/-- From place `pc`, with `tMotor` at `t`, the thread can reach a command to
    turn: the outer test is still to be passed, or it has been passed already. -/
def MayDrive (pc : RobotPc) (t : ℚ) : Prop :=
  match pc with
  | .haltA | .haltB => False
  | .startUpdates | .startTimer | .outerTest | .checkDistance | .pause | .restA | .restB => t ≤ 10
  | _ => True

/-- The distance that leads from `pc` to a command to turn. -/
def urge (pc : RobotPc) : Int := if pc = .turnTest then 0 else 4

/-- How many steps lead from `pc` to a command to turn, at most. -/
def stepsToDrive : RobotPc → Nat
  | .driveA | .driveB | .turnA | .turnB | .haltA | .haltB => 0
  | .sense | .turnTest => 1
  | .outerTest | .settle => 2
  | .startTimer | .restB | .brakeB => 3
  | .startUpdates | .restA | .brakeA => 4
  | .pause => 5
  | .checkDistance => 6

/-- A thread that cannot reach such a command gives none and stays so. -/
theorem robotStep_of_not_mayDrive {pc : RobotPc} {i : RobotSamples} (h : ¬ MayDrive pc i.tMotor) :
    (∀ e ∈ (robotStep pc i).2, e.drives = false) ∧
      ∀ pc', (robotStep pc i).1 = some pc' → ¬ MayDrive pc' i.tMotor := by
  cases pc with
  | outerTest =>
    have hlate : ¬ i.tMotor ≤ 10 := h
    simp [robotStep, hlate, MayDrive]
  | startUpdates | startTimer | checkDistance | pause | restA | restB | haltA =>
    refine ⟨by simp [robotStep, Event.drives], ?_⟩
    rintro _ ⟨⟩
    exact h
  | haltB =>
    refine ⟨by simp [robotStep, Event.drives], ?_⟩
    rintro _ ⟨⟩
  | _ => exact absurd trivial h

/-- A thread that can reach such a command gives it or comes a step closer. -/
theorem robotStep_of_mayDrive {pc : RobotPc} {i : RobotSamples} (h : MayDrive pc i.tMotor)
    (hi : i.distance = urge pc) :
    (∃ e ∈ (robotStep pc i).2, e.drives = true) ∨
      ∃ pc', (robotStep pc i).1 = some pc' ∧ MayDrive pc' i.tMotor ∧
        stepsToDrive pc' < stepsToDrive pc := by
  cases pc with
  | driveA | driveB | turnA | turnB => exact .inl ⟨_, List.mem_cons_self, rfl⟩
  | outerTest =>
    have hearly : i.tMotor ≤ 10 := h
    exact .inr ⟨.sense, by simp [robotStep, hearly], trivial, by decide⟩
  | sense => exact .inr ⟨.driveA, by simp [robotStep, hi, urge], trivial, by decide⟩
  | turnTest => exact .inr ⟨.turnA, by simp [robotStep, hi, urge], trivial, by decide⟩
  | haltA | haltB => exact h.elim
  | _ => exact .inr ⟨_, rfl, h, by decide⟩

/-! ## What the actions leave alone -/

/-- An event that turns no motor and leaves the robot thread and its timer alone. -/
def Event.isQuiet : Event → Bool
  | .speed _ v   => v = 0
  | .timer t _   => t ≠ .tMotor
  | .threadStart => false
  | _            => true

theorem drives_of_isQuiet {e : Event} (h : e.isQuiet = true) : e.drives = false := by
  cases e with
  | speed m v =>
    have hv : v = 0 := of_decide_eq_true h
    simp [Event.drives, hv]
  | _ => rfl

theorem isQuiet_of_isSignal {e : Event} (h : e.isSignal = true) : e.isQuiet = true := by
  cases e <;> first | exact h | rfl | cases h

/-- What `main` does is quiet, except that it starts the robot thread at one place. -/
theorem isQuiet_mainStep {m : MainState} {i : Inputs} (hpc : m.pc ≠ .launch) :
    ∀ e ∈ (mainStep m i).2, e.isQuiet = true := by
  unfold mainStep
  cases h : m.pc with
  | launch => exact absurd h hpc
  | setTime =>
    simp only
    split
    · simp
    · cases (TimeDisplay.setTimePoll m.seconds i.hour i.minute).2 <;> simp [Event.isQuiet]
  | compare =>
    simp only
    split <;> simp [Event.isQuiet]
  | select =>
    intro e he
    simp only [selectStep, List.mem_cons, List.mem_map] at he
    rcases he with rfl | ⟨l, -, rfl⟩ <;> rfl
  | disarm =>
    intro e he
    simp only at he
    split at he
    · rcases disarmPass_cases i.toSamples m.globals with ⟨c, events, -, -, heq, hsig⟩ | ⟨-, hsig⟩
      · rw [heq] at he
        rcases List.mem_append.mp he with he | he
        · exact isQuiet_of_isSignal (hsig e he)
        · obtain rfl : e = .accept c := by simpa using he
          rfl
      · exact isQuiet_of_isSignal (hsig e he)
    · obtain rfl : e = .leave := by simpa using he
      rfl
  | _ => simp [Event.isQuiet, restart]

@[simp] theorem foldl_perform_main (events : List Event) (s : System) :
    (events.foldl perform s).main = s.main := by
  induction events generalizing s with
  | nil => rfl
  | cons e events ih =>
    rw [List.foldl_cons, ih]
    cases e with
    | threadStart =>
      simp only [perform]
      split <;> rfl
    | _ => rfl

/-- Quiet events leave the thread, its wait and its timer as they are. -/
theorem foldl_perform_of_isQuiet {events : List Event} (h : ∀ e ∈ events, e.isQuiet = true)
    (s : System) :
    (events.foldl perform s).robot = s.robot ∧
      (events.foldl perform s).robotWait = s.robotWait ∧
      (events.foldl perform s).timers .tMotor = s.timers .tMotor := by
  induction events generalizing s with
  | nil => exact ⟨rfl, rfl, rfl⟩
  | cons e events ih =>
    have hone : (perform s e).robot = s.robot ∧ (perform s e).robotWait = s.robotWait ∧
        (perform s e).timers .tMotor = s.timers .tMotor := by
      have hquiet := h e List.mem_cons_self
      cases e with
      | timer t op =>
        have ht : .tMotor ≠ t := (of_decide_eq_true hquiet).symm
        exact ⟨rfl, rfl, Function.update_of_ne ht _ _⟩
      | threadStart => cases hquiet
      | _ => exact ⟨rfl, rfl, rfl⟩
    obtain ⟨hrobot, hwait, htimer⟩ := ih (fun e he => h e (List.mem_cons_of_mem _ he)) (perform s e)
    exact ⟨hrobot.trans hone.1, hwait.trans hone.2.1, htimer.trans hone.2.2⟩

/-- A step of the robot thread moves the thread only. Its timer may be started. -/
theorem next_robot {s : System} {pc : RobotPc} (h : s.robot = some pc) (distance : Int) :
    (system.next s (.robot distance)).main = s.main ∧
      (system.next s (.robot distance)).robot = (robotStep pc (s.robotSamples distance)).1 ∧
      ((system.next s (.robot distance)).timers .tMotor).elapsed = (s.timers .tMotor).elapsed := by
  simp only [Machine.next, system, systemStep, h]
  cases pc <;> simp [robotStep, perform, Timer.perform]

theorem out_robot {s : System} {pc : RobotPc} (h : s.robot = some pc) (distance : Int) :
    system.out s (.robot distance) = (robotStep pc (s.robotSamples distance)).2 := by
  simp only [Machine.out, system, systemStep, h]

/-- Without a robot thread its action is none. -/
theorem step_robot_of_none {s : System} (h : s.robot = none) (distance : Int) :
    system.step s (.robot distance) = (s, []) := by
  simp only [system, systemStep, h]

theorem le_elapsed_elapse {d : ℚ} (hd : 0 ≤ d) (t : Timer) : t.elapsed ≤ (t.elapse d).elapsed := by
  unfold Timer.elapse
  split
  · exact le_add_of_nonneg_right hd
  · exact le_rfl

/-! ## The branch -/

/-- `main` has executed `A.speed(0)` and has not left the alarm branch. -/
def InBranch (s : System) : Prop :=
  s.main.pc = .stopB ∨ s.main.pc = .ring ∨ s.main.pc = .select ∨ s.main.pc = .rearm ∨
    s.main.pc = .disarm

instance decidableInBranch (s : System) : Decidable (InBranch s) :=
  inferInstanceAs (Decidable (_ ∨ _ ∨ _ ∨ _ ∨ _))

/-- No command turns a motor before `main` leaves the branch, in whatever order
    the two threads go on. -/
def StandsStill (s : System) : Prop :=
  ∀ as, system.Admits (fun t a => Enabled t a ∧ InBranch t) s as →
    ∀ e ∈ system.trace s as, e.drives = false

/-- There is no robot thread, or it has given its last command to turn. -/
def Spent (s : System) : Prop :=
  ∀ pc, s.robot = some pc → ¬ MayDrive pc (s.timers .tMotor).elapsed

theorem MayDrive.mono {pc : RobotPc} {t u : ℚ} (h : MayDrive pc u) (htu : t ≤ u) :
    MayDrive pc t := by
  cases pc <;> first | trivial | exact htu.trans h

theorem Spent.of_le {s t : System} (h : Spent s) (hrobot : t.robot = s.robot)
    (hle : (s.timers .tMotor).elapsed ≤ (t.timers .tMotor).elapsed) : Spent t :=
  fun pc hpc hmay => h pc (hrobot ▸ hpc) (hmay.mono hle)

theorem InBranch.ne_launch {s : System} (h : InBranch s) : s.main.pc ≠ .launch := by
  intro hpc
  rcases h with h | h | h | h | h <;> rw [hpc] at h <;> cases h

/-- In the branch `main` leaves the robot thread and its timer alone. -/
theorem next_main {s : System} (h : InBranch s) (i : Inputs) :
    (system.next s (.main i)).robot = s.robot ∧
      (system.next s (.main i)).robotWait = s.robotWait ∧
      (system.next s (.main i)).timers .tMotor = s.timers .tMotor := by
  exact foldl_perform_of_isQuiet (isQuiet_mainStep h.ne_launch) _

theorem out_main {s : System} (h : InBranch s) (i : Inputs) :
    ∀ e ∈ system.out s (.main i), e.drives = false := by
  exact fun e he => drives_of_isQuiet (isQuiet_mainStep h.ne_launch e he)

theorem Spent.step {s : System} {a : Action} (h : Spent s) (hok : Enabled s a ∧ InBranch s) :
    Spent (system.next s a) ∧ ∀ e ∈ system.out s a, e.drives = false := by
  cases a with
  | elapse d => exact ⟨h.of_le rfl (le_elapsed_elapse hok.1 _), by simp [Machine.out, system, systemStep]⟩
  | main i =>
    obtain ⟨hrobot, -, htimer⟩ := next_main hok.2 i
    exact ⟨h.of_le hrobot (by rw [htimer]), out_main hok.2 i⟩
  | robot distance =>
    obtain ⟨pc, hpc⟩ := Option.ne_none_iff_exists'.mp hok.1.1
    obtain ⟨-, hrobot, htimer⟩ := next_robot hpc distance
    obtain ⟨hout, hnext⟩ := robotStep_of_not_mayDrive (i := s.robotSamples distance) (h pc hpc)
    refine ⟨fun pc' hpc' => ?_, ?_⟩
    · rw [htimer]
      exact hnext pc' (hrobot ▸ hpc')
    · rw [out_robot hpc]
      exact hout

/-- A spent thread gives no command to turn while `main` is in the branch. -/
theorem Spent.standsStill {s : System} (h : Spent s) : StandsStill s :=
  fun _ hadm => system.forall_mem_trace_of_admits hadm h fun _ _ ht hok => ht.step hok

/-! ## Reaching a command -/

/-- Some continuation in the branch turns a motor. -/
def Drives (s : System) : Prop :=
  ∃ as, system.Admits (fun t a => Enabled t a ∧ InBranch t) s as ∧
    ∃ e ∈ system.trace s as, e.drives = true

theorem StandsStill.not_drives {s : System} (h : StandsStill s) : ¬ Drives s := by
  rintro ⟨as, hadm, e, he, hdrives⟩
  rw [h as hadm e he] at hdrives
  cases hdrives

theorem Drives.of_out {s : System} {a : Action} (hok : Enabled s a ∧ InBranch s)
    (h : ∃ e ∈ system.out s a, e.drives = true) : Drives s := by
  obtain ⟨e, he, hdrives⟩ := h
  exact ⟨[a], ⟨hok, trivial⟩, e, List.mem_append_left _ he, hdrives⟩

theorem Drives.of_next {s : System} {a : Action} (hok : Enabled s a ∧ InBranch s)
    (h : Drives (system.next s a)) : Drives s := by
  obtain ⟨as, hadm, e, he, hdrives⟩ := h
  exact ⟨a :: as, ⟨hok, hadm⟩, e, List.mem_append_right _ he, hdrives⟩

/-- The robot thread waits only before it looks for a way to turn. Its other
    wait, `Thread::wait(0.1)`, is one of 0 milliseconds. -/
def WaitsToTurn (s : System) : Prop :=
  ∀ pc, s.robot = some pc → 0 < s.robotWait → pc = .turnTest

theorem robotWait_next {s : System} {pc : RobotPc} (h : s.robot = some pc) (distance : Int) :
    WaitsToTurn (system.next s (.robot distance)) := by
  intro pc' hpc' hwait
  simp only [Machine.next, system, systemStep, h] at hpc' hwait
  cases pc with
  | settle =>
    obtain rfl : RobotPc.turnTest = pc' := by simpa [robotStep, perform] using hpc'
    rfl
  | _ => simp [robotStep, perform, Event.delay] at hwait

/-- A step of `main` leaves the robot thread as it is, or there is none and it
    starts one, which does not wait. The thread's timer it leaves alone. -/
theorem main_cases (s : System) (i : Inputs) :
    (system.next s (.main i)).timers .tMotor = s.timers .tMotor ∧
      ((system.next s (.main i)).robot = s.robot ∧
          (system.next s (.main i)).robotWait = s.robotWait ∨
        s.robot = none ∧ (system.next s (.main i)).robot = some .startUpdates ∧
          (system.next s (.main i)).robotWait = 0) := by
  by_cases hpc : s.main.pc = .launch
  · simp only [Machine.next, system, systemStep, mainStep, hpc]
    by_cases hresult : s.main.result = true
    · cases s.robot <;> simp [hresult, perform]
    · simp [hresult]
  · obtain ⟨hrobot, hwait, htimer⟩ := foldl_perform_of_isQuiet
      (isQuiet_mainStep (i := s.inputs i) hpc) { s with
        main := (mainStep s.main (s.inputs i)).1
        mainWait := ((mainStep s.main (s.inputs i)).2.map Event.delay).sum }
    exact ⟨htimer, .inl ⟨hrobot, hwait⟩⟩

theorem WaitsToTurn.step {s : System} {a : Action} (h : WaitsToTurn s) (hok : Enabled s a) :
    WaitsToTurn (system.next s a) := by
  cases a with
  | elapse d =>
    intro pc hpc hwait
    have hle : s.robotWait - d ≤ s.robotWait := sub_le_self _ hok
    exact h pc hpc (hwait.trans_le hle)
  | main i =>
    rcases (main_cases s i).2 with ⟨hrobot, hsame⟩ | ⟨-, -, hzero⟩
    · intro pc hpc hwait
      exact h pc (hrobot ▸ hpc) (hsame ▸ hwait)
    · intro pc _ hwait
      rw [hzero] at hwait
      exact absurd hwait (lt_irrefl 0)
  | robot distance =>
    obtain ⟨pc, hpc⟩ := Option.ne_none_iff_exists'.mp hok.1
    exact robotWait_next hpc distance

theorem waitsToTurn_init : WaitsToTurn System.init := by
  rintro pc ⟨⟩

/-- A thread that is not spent drives, in some continuation. -/
theorem drives_of_mayDrive {s : System} {pc : RobotPc} (hpc : s.robot = some pc)
    (hmay : MayDrive pc (s.timers .tMotor).elapsed) (hbranch : InBranch s) (hwait : WaitsToTurn s) :
    Drives s := by
  induction hn : stepsToDrive pc using Nat.strong_induction_on generalizing s pc with
  | _ n ih =>
    subst hn
    -- Once it does not wait, the thread is led to a command by the right distances.
    have hgo : ∀ t : System, t.robot = some pc → t.robotWait ≤ 0 →
        MayDrive pc (t.timers .tMotor).elapsed → InBranch t → Drives t := by
      intro t htpc htwait htmay htbranch
      have hok : Enabled t (.robot (urge pc)) ∧ InBranch t := ⟨⟨by simp [htpc], htwait⟩, htbranch⟩
      obtain ⟨hmain, hrobot, htimer⟩ := next_robot htpc (urge pc)
      rcases robotStep_of_mayDrive (i := t.robotSamples (urge pc)) htmay rfl with
        hout | ⟨pc', hnext, hmay', hlt⟩
      · exact .of_out hok (by rwa [out_robot htpc])
      · refine .of_next hok (ih _ hlt (hrobot.trans hnext) ?_ ?_ (robotWait_next htpc _) rfl)
        · rw [htimer]
          exact hmay'
        · rwa [InBranch, hmain]
    by_cases hready : s.robotWait ≤ 0
    · exact hgo s hpc hready hmay hbranch
    · have hpos : 0 < s.robotWait := not_le.mp hready
      obtain rfl : pc = .turnTest := hwait pc hpc hpos
      refine .of_next (a := .elapse s.robotWait) ⟨hpos.le, hbranch⟩ (hgo _ hpc ?_ trivial hbranch)
      exact (sub_self s.robotWait).le

theorem spent_of_standsStill {s : System} (h : StandsStill s) (hbranch : InBranch s)
    (hwait : WaitsToTurn s) : Spent s :=
  fun _ hpc hmay => h.not_drives (drives_of_mayDrive hpc hmay hbranch hwait)

/-! ## Every run -/

/-- The branch begins with the first of the two stops. -/
theorem inBranch_of_stopA {s : System} (h : s.main.pc = .stopA) (i : Inputs) :
    InBranch (system.next s (.main i)) := by
  left
  simp only [Machine.next, system, systemStep, foldl_perform_main, mainStep, h]

/-- In every interleaving, from the moment at which `main` has executed
    `A.speed(0)` the robot stands still until the branch is left, exactly if its
    thread is spent at that moment. -/
theorem standsStill_iff (as : List Action) (i : Inputs)
    (hadm : system.Admits Enabled System.init (as ++ [.main i]))
    (hstop : (system.run System.init as).main.pc = .stopA) :
    StandsStill (system.run System.init (as ++ [.main i])) ↔
      Spent (system.run System.init (as ++ [.main i])) := by
  have hwait : WaitsToTurn (system.run System.init (as ++ [.main i])) :=
    system.invariant_of_admits hadm waitsToTurn_init fun _ _ h hok => h.step hok
  have hbranch : InBranch (system.run System.init (as ++ [.main i])) := by
    rw [Machine.run_concat]
    exact inBranch_of_stopA hstop i
  exact ⟨fun h => spent_of_standsStill h hbranch hwait, fun h => h.standsStill⟩

/-- The first steps of `main`, with the clock at `t`: up to the top of the main loop. -/
def startUp (t : Nat) : List Action :=
  [.main (.showing t none), .main (.showing t none), .elapse (1 / 10), .main (.showing t none)]

/-- Steps of `main` with the clock at `t`. -/
def mainSteps (n t : Nat) : List Action := List.replicate n (.main (.showing t none))

/-- The robot is launched a minute before the alarm at midnight and has ten
    seconds of `tMotor` behind it when the alarm comes. -/
def launchedBefore : List Action :=
  startUp 86340 ++ mainSteps 3 86340 ++ [.robot 100, .robot 100, .elapse 60] ++ mainSteps 3 86400

theorem standsStill_launchedBefore :
    StandsStill (system.run System.init (launchedBefore ++ [.main (.showing 86400 none)])) := by
  refine (standsStill_iff launchedBefore (.showing 86400 none) (by decide +kernel)
    (by decide +kernel)).mpr ?_
  have hrobot : (system.run System.init
      (launchedBefore ++ [.main (.showing 86400 none)])).robot = some .outerTest := by
    decide +kernel
  have htimer : ((system.run System.init
      (launchedBefore ++ [.main (.showing 86400 none)])).timers .tMotor).elapsed = 60 := by
    decide +kernel
  intro pc hpc hmay
  obtain rfl : .outerTest = pc := Option.some.inj (hrobot.symm.trans hpc)
  have hearly : (60 : ℚ) ≤ 10 := htimer ▸ hmay
  norm_num at hearly

/-- The clock is set and shows the alarm at the first pass: the pass that starts
    the robot enters the branch, and the robot drives in it. -/
theorem robot_drives_in_branch :
    ¬ ∀ (as : List Action) (i : Inputs), system.Admits Enabled System.init (as ++ [.main i]) →
      (system.run System.init as).main.pc = .stopA →
        StandsStill (system.run System.init (as ++ [.main i])) := by
  intro h
  have hstill := h (startUp 0 ++ mainSteps 3 0) (.showing 0 none) (by decide +kernel)
    (by decide +kernel)
  have hdrives := hstill (List.replicate 5 (.robot 100)) (by decide +kernel) (.speed .A (-1))
    (by decide +kernel)
  cases hdrives

end Firmware
