-- SUMMARY: What a motor reports after any calls, and that no call takes it from one direction to the other.
import SmartAlarm.Firmware.Motordriver
import Mathlib.Algebra.Order.Field.Rat
import Mathlib.Tactic.Linarith

/-!
# The states of a motor

The interlock keeps the direction of the last command and not that of the motor.
It still does its work: a motor that is driven is driven in the direction of its
last command, whatever calls of `speed`, `coast` and `stop` came before.
-/

namespace Motor

/-! ## The saturated duty -/

theorem duty_nonneg (m : Motor) : 0 ≤ m.duty := by
  unfold duty
  split
  · exact le_rfl
  · rename_i hneg
    split
    · exact zero_le_one
    · exact not_lt.mp hneg

theorem duty_le_one (m : Motor) : m.duty ≤ 1 := by
  unfold duty
  split
  · exact zero_le_one
  · split
    · exact le_rfl
    · rename_i hle
      exact not_lt.mp hle

theorem duty_eq_zero {m : Motor} (h : m.pwm = 0) : m.duty = 0 := by
  simp [duty, h, zero_le_one.not_gt]

/-! ## Driven motors -/

/-- What every call leaves behind: a motor that is driven turns in the direction of the
    last command, and both outputs are on only to brake. -/
structure Sound (m : Motor) : Prop where
  sign : m.sign = 0 ∨ m.sign = 1 ∨ m.sign = -1
  forward : m.fwd = true → m.rev = false → m.sign = 1
  reverse : m.fwd = false → m.rev = true → m.sign = -1
  off : m.fwd = false → m.rev = false → m.pwm = 0

theorem sound_init : init.Sound := ⟨.inl rfl, nofun, nofun, fun _ _ => rfl⟩

theorem sound_coast (m : Motor) : m.coast.Sound := ⟨.inl rfl, nofun, nofun, fun _ _ => rfl⟩

theorem sound_stop (brakeable : Int) (m : Motor) (duty : ℚ) : (m.stop brakeable duty).1.Sound := by
  unfold stop
  split
  · exact ⟨.inl rfl, nofun, nofun, nofun⟩
  · exact sound_coast m

/-- What `Motor::speed` does: it sets the outputs for the command, and the pulse unless
    the command is against the last one. -/
theorem speed_cases {m : Motor} (h : m.Sound) (v : ℚ) :
    ∃ d, (m.speed v).1 = ⟨d, 0 < v, v < 0, if 0 < v then 1 else if v < 0 then -1 else 0⟩ ∧
      (v = 0 → d = 0) ∧ (m.sign = 1 → v < 0 → d = 0) ∧ (m.sign = -1 → 0 < v → d = 0) := by
  rcases h.sign with hsign | hsign | hsign
  · exact ⟨if v < 0 then -v else v, by simp [speed, hsign, drive], by rintro rfl; simp,
      by simp [hsign], by simp [hsign]⟩
  · by_cases hv : v < 0
    · exact ⟨0, by simp [speed, hsign, drive, hv], fun _ => rfl, fun _ _ => rfl, fun _ _ => rfl⟩
    · exact ⟨v, by simp [speed, hsign, drive, hv], id, fun _ hneg => absurd hneg hv,
        by simp [hsign]⟩
  · by_cases hv : 0 < v
    · exact ⟨0, by simp [speed, hsign, drive, hv], fun _ => rfl, fun _ _ => rfl, fun _ _ => rfl⟩
    · refine ⟨if v < 0 then -v else v, by simp [speed, hsign, drive, hv], by rintro rfl; simp,
        by simp [hsign], fun _ hpos => absurd hpos hv⟩

theorem sound_speed {m : Motor} (h : m.Sound) (v : ℚ) : (m.speed v).1.Sound := by
  obtain ⟨d, heq, hzero, -, -⟩ := speed_cases h v
  rw [heq]
  refine ⟨?_, fun hfwd _ => ?_, fun _ hrev => ?_, fun hfwd hrev => hzero ?_⟩
  · dsimp only
    split_ifs
    · exact .inr (.inl rfl)
    · exact .inr (.inr rfl)
    · exact .inl rfl
  · exact if_pos (of_decide_eq_true hfwd)
  · have hneg : v < 0 := of_decide_eq_true hrev
    simp [hneg, hneg.le.not_gt]
  · exact le_antisymm (not_lt.mp (of_decide_eq_false hfwd)) (not_lt.mp (of_decide_eq_false hrev))

theorem Sound.next {m : Motor} (h : m.Sound) (brakeable : Int) (c : Call) :
    ((calls brakeable).next m c).Sound := by
  cases c with
  | speed v => exact sound_speed h v
  | coast => exact sound_coast m
  | stop duty => exact sound_stop brakeable m duty

/-! ## What is reported -/

/-- The motor is driven forward. -/
def Forward (m : Motor) : Prop := 0 < m.state ∧ m.state ≤ 1

/-- The motor is driven backwards. -/
def Reverse (m : Motor) : Prop := -1 ≤ m.state ∧ m.state < 0

theorem state_cases {m : Motor} (h : m.Sound) :
    m.state = -2 ∨ m.state = 2 ∨ (m.Forward ∧ m.sign = 1 ∧ m.pwm ≠ 0) ∨
      (m.Reverse ∧ m.sign = -1 ∧ m.pwm ≠ 0) := by
  have hnonneg := m.duty_nonneg
  have hle := m.duty_le_one
  by_cases hzero : m.duty = 0
  · exact .inr (.inl (by simp [state, hzero]))
  · have hpos : 0 < m.duty := lt_of_le_of_ne hnonneg (Ne.symm hzero)
    have hpwm : m.pwm ≠ 0 := fun hpwm => hzero (duty_eq_zero hpwm)
    cases hfwd : m.fwd <;> cases hrev : m.rev
    · exact absurd (h.off hfwd hrev) hpwm
    · have hstate : m.state = -m.duty := by simp [state, hfwd, hrev, hzero]
      refine .inr (.inr (.inr ⟨⟨?_, ?_⟩, h.reverse hfwd hrev, hpwm⟩)) <;> rw [hstate] <;> linarith
    · have hstate : m.state = m.duty := by simp [state, hfwd, hrev, hzero]
      refine .inr (.inr (.inl ⟨⟨?_, ?_⟩, h.forward hfwd hrev, hpwm⟩)) <;> rw [hstate] <;> linarith
    · exact .inl (by simp [state, hfwd, hrev, hpos])

theorem Forward.sign {m : Motor} (hm : m.Forward) (h : m.Sound) : m.sign = 1 := by
  obtain ⟨hpos, hle⟩ := hm
  rcases state_cases h with hstate | hstate | ⟨-, hsign, -⟩ | ⟨⟨-, hneg⟩, -, -⟩
  · linarith
  · linarith
  · exact hsign
  · linarith

theorem Reverse.sign {m : Motor} (hm : m.Reverse) (h : m.Sound) : m.sign = -1 := by
  obtain ⟨hle, hneg⟩ := hm
  rcases state_cases h with hstate | hstate | ⟨⟨hpos, -⟩, -, -⟩ | ⟨-, hsign, -⟩
  · linarith
  · linarith
  · linarith
  · exact hsign

/-- A motor whose pulse is off is not driven. -/
theorem state_of_pwm_eq_zero {m : Motor} (h : m.pwm = 0) : m.state = 2 := by
  simp [state, duty_eq_zero h]

/-- The direction is what a call turns round: a call that leaves the motor driven against
    the direction of the last command does not exist. -/
theorem not_thrown {m : Motor} (h : m.Sound) (brakeable : Int) (c : Call) :
    ¬ (m.Forward ∧ ((calls brakeable).next m c).Reverse) ∧
      ¬ (m.Reverse ∧ ((calls brakeable).next m c).Forward) := by
  have hsound := h.next brakeable c
  have hsign : (m.Forward ∧ ((calls brakeable).next m c).Reverse) ∨
      (m.Reverse ∧ ((calls brakeable).next m c).Forward) →
      ((calls brakeable).next m c).state = 2 := by
    intro hthrown
    cases c with
    | coast => exact state_of_pwm_eq_zero rfl
    | stop duty =>
      have hzero : ((calls brakeable).next m (.stop duty)).sign = 0 := by
        simp only [Machine.next, calls, stop]
        split <;> rfl
      rcases hthrown with ⟨-, hm⟩ | ⟨-, hm⟩
      · exact absurd (hm.sign hsound) (by rw [hzero]; decide)
      · exact absurd (hm.sign hsound) (by rw [hzero]; decide)
    | speed v =>
      obtain ⟨d, heq, -, hone, hneg⟩ := speed_cases h v
      have hnext : (calls brakeable).next m (.speed v) = _ := heq
      rw [hnext] at hthrown hsound ⊢
      refine state_of_pwm_eq_zero ?_
      rcases hthrown with ⟨hm, hm'⟩ | ⟨hm, hm'⟩
      · have hback := hm'.sign hsound
        refine hone (hm.sign h) ?_
        by_contra hv
        by_cases hpos : 0 < v <;> simp [hpos, hv] at hback
      · have hforth := hm'.sign hsound
        refine hneg (hm.sign h) ?_
        by_contra hv
        by_cases hlow : v < 0 <;> simp [hv, hlow] at hforth
  constructor
  · intro hthrown
    have hstate := hsign (.inl hthrown)
    have hlow := hthrown.2.2
    linarith
  · intro hthrown
    have hstate := hsign (.inr hthrown)
    have hhigh := hthrown.2.2
    linarith

/-! ## Every sequence of calls -/

/-- Between two moments at which the motor is driven in opposite directions there is
    one at which it is not driven. -/
theorem exists_undriven {m : Motor} (h : m.Sound) (brakeable : Int) (cs : List Call)
    (hm : m.Forward ∧ ((calls brakeable).run m cs).Reverse ∨
      m.Reverse ∧ ((calls brakeable).run m cs).Forward) :
    ∃ pre, pre <+: cs ∧ (((calls brakeable).run m pre).state = 2 ∨
      ((calls brakeable).run m pre).state = -2) := by
  induction cs generalizing m with
  | nil =>
    exfalso
    rcases hm with ⟨⟨hpos, -⟩, -, hneg⟩ | ⟨⟨-, hneg⟩, hpos, -⟩
    · exact absurd hpos hneg.not_gt
    · exact absurd hpos hneg.not_gt
  | cons c cs ih =>
    have hsound := h.next brakeable c
    obtain ⟨hback, hforth⟩ := not_thrown h brakeable c
    rcases state_cases hsound with hstate | hstate | ⟨hdriven, -, -⟩ | ⟨hdriven, -, -⟩
    · exact ⟨[c], by simp, .inr hstate⟩
    · exact ⟨[c], by simp, .inl hstate⟩
    · rcases hm with ⟨-, hlast⟩ | ⟨hfirst, -⟩
      · obtain ⟨pre, hpre, hstate⟩ := ih hsound (.inl ⟨hdriven, hlast⟩)
        exact ⟨c :: pre, (List.prefix_cons_inj c).mpr hpre, hstate⟩
      · exact absurd ⟨hfirst, hdriven⟩ hforth
    · rcases hm with ⟨hfirst, -⟩ | ⟨-, hlast⟩
      · exact absurd ⟨hfirst, hdriven⟩ hback
      · obtain ⟨pre, hpre, hstate⟩ := ih hsound (.inr ⟨hdriven, hlast⟩)
        exact ⟨c :: pre, (List.prefix_cons_inj c).mpr hpre, hstate⟩

/-- After any calls the motor reports no error, and it is never thrown from one
    direction into the other: between a moment at which it is driven forward and
    one at which it is driven backwards it coasts or brakes. -/
theorem never_thrown (brakeable : Int) (cs : List Call) :
    let m := (calls brakeable).run init cs
    (m.state = -2 ∨ m.state = 2 ∨ m.Forward ∨ m.Reverse) ∧
      ∀ later, m.Forward ∧ ((calls brakeable).run m later).Reverse ∨
          m.Reverse ∧ ((calls brakeable).run m later).Forward →
        ∃ pre, pre <+: later ∧ (((calls brakeable).run m pre).state = 2 ∨
          ((calls brakeable).run m pre).state = -2) := by
  intro m
  have hsound : m.Sound := (calls brakeable).invariant sound_init (fun _ c h => h.next brakeable c) cs
  refine ⟨?_, fun later hm => exists_undriven hsound brakeable later hm⟩
  rcases state_cases hsound with hstate | hstate | ⟨hdriven, -, -⟩ | ⟨hdriven, -, -⟩
  · exact .inl hstate
  · exact .inr (.inl hstate)
  · exact .inr (.inr (.inl hdriven))
  · exact .inr (.inr (.inr hdriven))

end Motor
