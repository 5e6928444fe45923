-- SUMMARY: The range finder in the device: one thread at a time calls its driver, and the robot acts on what it has measured.
import SmartAlarm.Firmware.Device
import SmartAlarm.Properties.Standstill
import SmartAlarm.Properties.Triggering

/-!
# The whole device

`main` starts the range finder before it enters its loop, and only the loop starts
the robot thread. So the two threads never meet in the driver, and the driver runs
in the device as it was studied by itself.
-/

namespace Firmware

/-! ## Who calls the driver -/

theorem calls_of_isSignal {e : Event} (h : e.isSignal = true) : e.calls = [] := by
  cases e <;> first | rfl | cases h

/-- `main` calls the driver at one place. -/
theorem calls_mainStep (m : MainState) (i : Inputs) :
    (mainStep m i).2.flatMap Event.calls = if m.pc = .startLED then [.startUpdates] else [] := by
  unfold mainStep
  cases hpc : m.pc with
  | setTime =>
    simp only
    split
    · simp
    · cases (TimeDisplay.setTimePoll m.seconds i.hour i.minute).2 <;> simp [Event.calls]
  | launch =>
    simp only
    split <;> simp [Event.calls]
  | compare =>
    simp only
    split <;> simp [Event.calls]
  | select =>
    simp [selectStep, Event.calls, List.flatMap_map]
  | disarm =>
    simp only
    split
    · rcases disarmPass_cases i.toSamples m.globals with ⟨c, events, -, -, heq, hsig⟩ | ⟨-, hsig⟩
      · rw [heq]
        have hnone : events.flatMap Event.calls = [] :=
          List.flatMap_eq_nil_iff.mpr fun e he => calls_of_isSignal (hsig e he)
        simp [hnone, Event.calls]
      · exact List.flatMap_eq_nil_iff.mpr fun e he => calls_of_isSignal (hsig e he)
    · simp [Event.calls]
  | _ => simp [restart, Event.calls]

theorem calls_main (d : Device) (i : Inputs) :
    (DeviceAction.main i).calls d =
      if d.system.main.pc = .startLED then [.startUpdates] else [] := by
  rw [← calls_mainStep d.system.main (d.system.inputs i), DeviceAction.calls,
    DeviceAction.systemInputs, Machine.trace_cons, Machine.trace_nil, List.append_nil]
  rfl

/-- No step makes more than one call, and none pauses the driver or changes its period. -/
theorem calls_robot (d : Device) :
    DeviceAction.robot.calls d = [] ∨ DeviceAction.robot.calls d = [.startUpdates] ∨
      DeviceAction.robot.calls d = [.checkDistance] := by
  rw [DeviceAction.calls, DeviceAction.systemInputs, Machine.trace_cons, Machine.trace_nil,
    List.append_nil]
  cases hpc : d.system.robot with
  | none => simp [Machine.out, step_robot_of_none hpc]
  | some pc =>
    rw [out_robot hpc]
    cases pc <;> simp [robotStep, Event.calls]

/-! ## One thread at a time -/

/-- Where `main` is before it has called the driver. -/
def Early (m : MainState) : Prop := m.pc = .setTime ∨ m.pc = .startSpeaker ∨ m.pc = .startLED

/-- Before `main` has called the driver it is idle, and while `main` is in its call
    there is no robot thread. -/
structure Exclusive (d : Device) : Prop where
  early : Early d.system.main → d.sensor.todo = [] ∧ d.system.robot = none
  calling : d.caller = .main → d.sensor.todo ≠ [] → d.system.robot = none

theorem exclusive_init : Exclusive Device.init := ⟨fun _ => ⟨rfl, rfl⟩, fun _ _ => rfl⟩

/-- A thread that takes a step finds the driver idle if it is about to call it. -/
theorem Exclusive.idle {d : Device} (h : Exclusive d) {a : DeviceAction} (hok : DeviceEnabled d a)
    (hcalls : a.calls d ≠ []) : d.sensor.todo = [] := by
  cases a with
  | main i =>
    refine (h.early (.inr (.inr ?_))).1
    by_contra hpc
    exact hcalls (by rw [calls_main, if_neg hpc])
  | robot =>
    by_contra hbusy
    cases hcaller : d.caller with
    | main => exact hok.1.1 (h.calling hcaller hbusy)
    | robot => exact hbusy (hok.2 hcaller)
  | pass us => simp [DeviceAction.calls, DeviceAction.systemInputs, Machine.out, system, systemStep] at hcalls
  | statement | rise | fall | fire => exact absurd rfl hcalls

/-- `main` starts no thread before it has called the driver. -/
theorem robot_of_early {s : System} (h : Early s.main) (i : Inputs) :
    (system.next s (.main i)).robot = s.robot := by
  have hpc : s.main.pc ≠ .launch := by
    intro hpc
    rcases h with h | h | h <;> rw [hpc] at h <;> cases h
  exact (foldl_perform_of_isQuiet (isQuiet_mainStep hpc) _).1

/-- A step of `main` that ends before the call of the driver began before it. -/
theorem early_of_next {s : System} {i : Inputs} (h : Early (system.next s (.main i)).main) :
    Early s.main ∧ s.main.pc ≠ .startLED := by
  have hmain : (system.next s (.main i)).main = (mainStep s.main (s.inputs i)).1 := by
    simp [Machine.next, system, systemStep]
  rw [hmain] at h
  cases hpc : s.main.pc with
  | setTime | startSpeaker => exact ⟨by simp [Early, hpc], by simp⟩
  | compare =>
    exfalso
    simp only [mainStep, hpc] at h
    split at h <;> simp [Early] at h
  | disarm =>
    exfalso
    simp only [mainStep, hpc] at h
    split at h <;> simp [Early] at h
  | _ =>
    exfalso
    simp [mainStep, hpc, Early, topStep, selectStep] at h

/-- Interrupts leave the call of the thread as it is. -/
theorem todo_of_interrupt {s : Ultrasonic.Sensor} {a : Ultrasonic.Action} (hstep : a ≠ .step)
    (hcall : ∀ c, a ≠ .call c) : (Ultrasonic.sensor.next s a).todo = s.todo := by
  cases a with
  | call c => exact absurd rfl (hcall c)
  | step => exact absurd rfl hstep
  | rise | fall =>
    simp only [Machine.next, Ultrasonic.sensor, Ultrasonic.sensorStep]
    split <;> rfl
  | fire | pass us => rfl

theorem Exclusive.next {d : Device} (h : Exclusive d) {a : DeviceAction} (hok : DeviceEnabled d a) :
    Exclusive (device.next d a) := by
  cases a with
  | pass us | fire => exact ⟨h.early, h.calling⟩
  | rise =>
    have htodo : (device.next d .rise).sensor.todo = d.sensor.todo :=
      todo_of_interrupt (a := .rise) (by decide) nofun
    exact ⟨fun hearly => htodo ▸ h.early hearly, fun hcaller => htodo ▸ h.calling hcaller⟩
  | fall =>
    have htodo : (device.next d .fall).sensor.todo = d.sensor.todo :=
      todo_of_interrupt (a := .fall) (by decide) nofun
    exact ⟨fun hearly => htodo ▸ h.early hearly, fun hcaller => htodo ▸ h.calling hcaller⟩
  | statement =>
    refine ⟨fun hearly => absurd (h.early hearly).1 hok, fun hcaller _ => ?_⟩
    exact h.calling hcaller hok
  | main i =>
    by_cases hpc : d.system.main.pc = .startLED
    · have hnone : (device.next d (.main i)).system.robot = none := by
        have hearly : Early d.system.main := .inr (.inr hpc)
        exact (robot_of_early hearly i).trans (h.early hearly).2
      refine ⟨fun hearly => absurd hpc (early_of_next hearly).2, fun _ _ => hnone⟩
    · have hcalls : (DeviceAction.main i).calls d = [] := by rw [calls_main, if_neg hpc]
      have hsensor : (device.next d (.main i)).sensor = d.sensor := by
        simp [Machine.next, device, DeviceAction.sensorInputs, hcalls]
      have hcaller : (device.next d (.main i)).caller = d.caller := by
        simp [Machine.next, device, DeviceAction.caller, hcalls]
      refine ⟨fun hearly => ?_, fun hmain hbusy => ?_⟩
      · obtain ⟨hbefore, -⟩ := early_of_next hearly
        rw [hsensor]
        exact ⟨(h.early hbefore).1, (robot_of_early hbefore i).trans (h.early hbefore).2⟩
      · rw [hsensor] at hbusy
        exact absurd (hok.2 (hcaller ▸ hmain)) hbusy
  | robot =>
    obtain ⟨pc, hrobot⟩ := Option.ne_none_iff_exists'.mp hok.1.1
    have hmain : (device.next d .robot).system.main = d.system.main :=
      (next_robot hrobot _).1
    refine ⟨fun hearly => ?_, fun hcaller hbusy => ?_⟩
    · rw [hmain] at hearly
      exact absurd (h.early hearly).2 hok.1.1
    · by_cases hcalls : DeviceAction.robot.calls d = []
      · have hsensor : (device.next d .robot).sensor = d.sensor := by
          simp [Machine.next, device, DeviceAction.sensorInputs, hcalls]
        have hsame : (device.next d .robot).caller = d.caller := by
          simp [Machine.next, device, DeviceAction.caller, hcalls]
        exact absurd (h.calling (hsame ▸ hcaller) (hsensor ▸ hbusy)) hok.1.1
      · simp [Machine.next, device, DeviceAction.caller, hcalls] at hcaller

/-! ## The range finder in the device -/

/-- The inputs of the range finder in a run of the device. -/
def sensorInputs (d : Device) (as : List DeviceAction) : List Ultrasonic.Action :=
  device.feed (fun d a => a.sensorInputs d) d as

/-- The events of the range finder in a run of the device. -/
def DeviceEvent.sensor? : DeviceEvent → Option Ultrasonic.Event
  | .sensor e => some e
  | .system _ => none

def sensorEvents (events : List DeviceEvent) : List Ultrasonic.Event :=
  events.filterMap DeviceEvent.sensor?

theorem run_sensorInputs (d : Device) (as : List DeviceAction) :
    Ultrasonic.sensor.run d.sensor (sensorInputs d as) = (device.run d as).sensor :=
  device.run_feed Ultrasonic.sensor (f := Device.sensor) (fun _ _ => rfl) d as

theorem sensorEvents_append (es fs : List DeviceEvent) :
    sensorEvents (es ++ fs) = sensorEvents es ++ sensorEvents fs := List.filterMap_append

theorem sensorEvents_out (d : Device) (a : DeviceAction) :
    sensorEvents (device.out d a) = Ultrasonic.sensor.trace d.sensor (a.sensorInputs d) := by
  have hsystem (es : List Event) : sensorEvents (es.map .system) = [] := by
    rw [sensorEvents, List.filterMap_map, List.filterMap_eq_nil_iff]
    exact fun _ _ => rfl
  have hsensor (es : List Ultrasonic.Event) : sensorEvents (es.map .sensor) = es := by
    rw [sensorEvents, List.filterMap_map]
    exact List.filterMap_some
  calc sensorEvents (device.out d a)
      = sensorEvents ((system.trace d.system (a.systemInputs d)).map .system) ++
          sensorEvents ((Ultrasonic.sensor.trace d.sensor (a.sensorInputs d)).map .sensor) :=
        sensorEvents_append _ _
    _ = Ultrasonic.sensor.trace d.sensor (a.sensorInputs d) := by
        rw [hsystem, hsensor, List.nil_append]

theorem trace_sensorInputs (d : Device) (as : List DeviceAction) :
    Ultrasonic.sensor.trace d.sensor (sensorInputs d as) = sensorEvents (device.trace d as) := by
  induction as generalizing d with
  | nil => rfl
  | cons a as ih =>
    rw [Machine.trace_cons, sensorEvents_append, sensorEvents_out, ← ih, sensorInputs,
      Machine.feed, Machine.trace_append]
    rfl

/-- What the device does to the range finder the range finder allows, and nobody
    pauses it or changes its period. -/
theorem admits_sensorInputs {as : List DeviceAction}
    (hadm : device.Admits DeviceEnabled Device.init as) :
    Ultrasonic.sensor.Admits Ultrasonic.Steady (.init 0.1 1) (sensorInputs Device.init as) := by
  refine device.admits_feed Ultrasonic.sensor (f := Device.sensor) (fun _ _ => rfl)
    (fun d a h hok => h.next hok) ?_ exclusive_init hadm
  intro d a h hok
  cases a with
  | pass us => exact ⟨⟨hok, nofun, nofun⟩, trivial⟩
  | statement => exact ⟨⟨hok, nofun, nofun⟩, trivial⟩
  | rise => exact ⟨⟨hok, nofun, nofun⟩, trivial⟩
  | fall => exact ⟨⟨hok, nofun, nofun⟩, trivial⟩
  | fire => exact ⟨⟨hok, nofun, nofun⟩, trivial⟩
  | main i =>
    by_cases hpc : d.system.main.pc = .startLED
    · have hcalls : (DeviceAction.main i).calls d = [.startUpdates] := by
        rw [calls_main, if_pos hpc]
      rw [DeviceAction.sensorInputs, hcalls]
      have hidle := h.idle hok (by rw [hcalls]; nofun)
      exact ⟨⟨hidle, nofun, nofun⟩, trivial⟩
    · rw [DeviceAction.sensorInputs, calls_main, if_neg hpc]
      trivial
  | robot =>
    have hidle := h.idle hok
    rw [DeviceAction.sensorInputs]
    rcases calls_robot d with hcalls | hcalls | hcalls
    · rw [hcalls]
      trivial
    · rw [hcalls]
      exact ⟨⟨hidle (by rw [hcalls]; nofun), nofun, nofun⟩, trivial⟩
    · rw [hcalls]
      exact ⟨⟨hidle (by rw [hcalls]; nofun), nofun, nofun⟩, trivial⟩

/-- In every interleaving of the two threads and the interrupts, once the first trigger
    pulse has ended and while no thread is in another one, the next trigger is due
    a second after the last, or a tenth of a second later for each echo since. -/
theorem device_keeps_measuring {as : List DeviceAction}
    (hadm : device.Admits DeviceEnabled Device.init as)
    (htrig : .trig false ∈ sensorEvents (device.trace Device.init as))
    (hout : .trigLow ∉ (device.run Device.init as).sensor.todo) :
    let w := Ultrasonic.sinceTrigger (sensorEvents (device.trace Device.init as))
    ∃ r, (device.run Device.init as).sensor.driver.tout = some r ∧
      w.time + r ≤ 1000000 + w.echoes * 100000 := by
  have hrun : Ultrasonic.sensor.run (.init 0.1 1) (sensorInputs Device.init as) =
      (device.run Device.init as).sensor := run_sensorInputs Device.init as
  have htrace : Ultrasonic.sensor.trace (.init 0.1 1) (sensorInputs Device.init as) =
      sensorEvents (device.trace Device.init as) := trace_sensorInputs Device.init as
  obtain ⟨⟨hlistening, hfall⟩, hpunctual⟩ := Ultrasonic.punctual_run (admits_sensorInputs hadm)
  rw [hrun, htrace] at hpunctual
  rw [hrun] at hlistening
  rw [hrun, htrace] at hfall
  obtain ⟨r, hr⟩ := Option.isSome_iff_exists.mp (hlistening.isSome (hfall htrig) hout)
  have hlongest : Ultrasonic.longest 0.1 1 = 1000000 := by decide +kernel
  have hperiod : Ultrasonic.microseconds 0.1 = 100000 := by decide +kernel
  have hbound := hpunctual.bound hout r hr
  rw [hlongest, hperiod] at hbound
  exact ⟨r, hr, hbound⟩

/-- `main` has started the range finder, and its first echo has ended. -/
def started : List DeviceAction :=
  [.main (.showing 0 none), .main (.showing 0 none), .pass 100000, .main (.showing 0 none)] ++
    List.replicate 9 .statement ++ [.rise, .pass 5490, .fall]

theorem device_keeps_measuring_started :
    let w := Ultrasonic.sinceTrigger (sensorEvents (device.trace Device.init started))
    ∃ r, (device.run Device.init started).sensor.driver.tout = some r ∧
      w.time + r ≤ 1000000 + w.echoes * 100000 :=
  device_keeps_measuring (by decide +kernel) (by decide +kernel) (by decide +kernel)

/-! ## What the robot acts on -/

/-- The distance the robot thread reads is that of the last echo. -/
theorem currentDistance {as : List DeviceAction}
    (hin : Machine.AtEach Ultrasonic.InTime (sensorEvents (device.trace Device.init as))) :
    (device.run Device.init as).sensor.driver.getCurrentDistance =
      ((Ultrasonic.echo (sensorEvents (device.trace Device.init as))).pulse / 1830 : Nat) := by
  have hrun : Ultrasonic.sensor.run (.init 0.1 1) (sensorInputs Device.init as) =
      (device.run Device.init as).sensor := run_sensorInputs Device.init as
  have htrace : Ultrasonic.sensor.trace (.init 0.1 1) (sensorInputs Device.init as) =
      sensorEvents (device.trace Device.init as) := trace_sensorInputs Device.init as
  rw [← htrace] at hin ⊢
  rw [← hrun]
  exact (Ultrasonic.timed_run hin).distance

/-- In every interleaving in which the edges come in time the robot drives on exactly if
    the last echo took long enough, and turns exactly if it did not. -/
theorem robot_acts_on_last_echo {as : List DeviceAction}
    (hin : Machine.AtEach Ultrasonic.InTime (sensorEvents (device.trace Device.init as))) :
    let d := device.run Device.init as
    let pulse := (Ultrasonic.echo (sensorEvents (device.trace Device.init as))).pulse
    (d.system.robot = some .sense → (device.next d .robot).system.robot =
        some (if 7320 ≤ pulse then .driveA else .brakeA)) ∧
      (d.system.robot = some .turnTest → (device.next d .robot).system.robot =
        some (if pulse < 7320 then .turnA else .pause)) := by
  have hdistance := currentDistance hin
  intro d pulse
  have hfar : 3 < d.sensor.driver.getCurrentDistance ↔ 7320 ≤ pulse := by
    rw [hdistance]
    omega
  have hnear : d.sensor.driver.getCurrentDistance ≤ 3 ↔ pulse < 7320 := by
    rw [← not_lt, hfar, not_le]
  constructor
  · intro hsense
    have hrobot := (next_robot hsense d.sensor.driver.getCurrentDistance).2.1
    simp only [robotStep, System.robotSamples, hfar] at hrobot
    exact hrobot
  · intro hturn
    have hrobot := (next_robot hturn d.sensor.driver.getCurrentDistance).2.1
    simp only [robotStep, System.robotSamples, hnear] at hrobot
    exact hrobot

/-- The clock shows the alarm, so that `main` starts the robot behind the first echo. The
    robot's thread comes to its test. -/
def sensing : List DeviceAction :=
  started ++ List.replicate 3 (.main (.showing 0 none)) ++ .robot :: List.replicate 9 .statement ++
    [.robot, .robot]

theorem robot_acts_on_last_echo_near :
    (device.next (device.run Device.init sensing) .robot).system.robot = some .brakeA := by
  have hturn := (robot_acts_on_last_echo (by decide +kernel)).1
    (show (device.run Device.init sensing).system.robot = some .sense by decide +kernel)
  rwa [if_neg (by decide +kernel)] at hturn

end Firmware
