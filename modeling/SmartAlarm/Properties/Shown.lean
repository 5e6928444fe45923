-- SUMMARY: What the user sees: the clock and the alarm, each in its own line, as `main` compares them.
import SmartAlarm.Firmware.Display
import SmartAlarm.Properties.AlarmEditor
import SmartAlarm.Properties.AlarmPasses
import SmartAlarm.Properties.Disarming
import SmartAlarm.Properties.Printing
import SmartAlarm.Properties.Suffixes

/-!
# What is shown

A driver that has not printed last does not know where the cursor of the screen
is. Both texts are printed behind a `locate`, so they come to their lines all the
same, and no print touches a line of the other driver.
-/

namespace ULCD

open Function

section

variable {d : ULCD} {t : Terminal UInt8} {p : Page UInt8 18 16} {line : Nat → List UInt8} {text : List UInt8}
  {r : Nat}

/-! ## Lines -/

/-- The page has these lines and nothing else. -/
def PageLines (p : Page UInt8 18 16) (line : Nat → List UInt8) : Prop :=
  ∀ r < 16, ∀ k < 18, p.cells (r * 18 + k) = (line r)[k]?

/-- The screen has these lines and nothing else. -/
def Lines (t : Terminal UInt8) (line : Nat → List UInt8) : Prop :=
  ∀ r k, t.cells r k = if r < 16 ∧ k < 18 then (line r)[k]? else none

theorem Displays.lines (h : Displays d t p) (hlines : PageLines p line) : Lines t line := by
  intro r k
  rw [h.cells]
  split
  case isTrue hin => exact hlines r hin.1 k hin.2
  · rfl

theorem Lines.shows (h : Lines t line) {r : Nat} (hr : r < 16) (hshort : (line r).length ≤ 11) :
    t.Shows r (line r) := by
  intro k
  rw [h]
  by_cases hk : k < 18
  · rw [if_pos ⟨hr, hk⟩]
  · rw [if_neg (by omega), List.getElem?_eq_none (by omega)]

/-- A line that is printed over an old one that is not longer. -/
theorem PageLines.print (h : PageLines p line) (hpos : p.pos = r * 18) (hr : r < 16) (hlen : text.length < 18)
    (hcover : (line r).length ≤ text.length) (hprintable : ∀ c ∈ text, ¬ c < 0x20) :
    PageLines ((text.map Call.putc).foldl perform p) (update line r text) ∧
      ((text.map Call.putc).foldl perform p).pos = r * 18 + text.length := by
  have hputs : (text.map Call.putc).foldl perform p = text.foldl Page.put p := by
    clear hpos hcover hlen h
    induction text generalizing p with
    | nil => rfl
    | cons c text ih =>
      obtain ⟨hc, htext⟩ := List.forall_mem_cons.mp hprintable
      rw [List.map_cons, List.foldl_cons, List.foldl_cons, ih htext, perform, if_neg hc]
  have hfits : p.pos + text.length < 16 * 18 := by omega
  obtain ⟨hend, hcells⟩ := p.puts hfits
  rw [hputs]
  refine ⟨fun r' hr' k hk => ?_, by omega⟩
  rw [hcells, hpos]
  by_cases heq : r' = r
  · subst heq
    rw [update_self, Nat.add_sub_cancel_left]
    by_cases hin : k < text.length
    · rw [if_pos (by omega)]
    · rw [if_neg (by omega), h r' hr' k hk, List.getElem?_eq_none (by omega), List.getElem?_eq_none (by omega)]
  · rw [update_of_ne heq, if_neg (by omega), h r' hr' k hk]

/-- Behind a `locate` the driver and the screen agree, whatever other drivers have done. -/
theorem displays_locate (hcol : d.max_col = 18) (hrow : d.max_row = 16) (h : Lines t line) (r : UInt8)
    (hr : r.toNat < 16) :
    ∃ p, Displays (d.locate 0 r).1 (shown t (d.locate 0 r).2) p ∧ p.pos = r.toNat * 18 ∧ PageLines p line := by
  refine ⟨⟨r.toNat * 18, by omega, fun n => (line (n / 18))[n % 18]?⟩, ⟨⟨hcol, hrow, rfl, rfl⟩,
    (by decide : (0 : UInt8).toNat < 18), rfl, fun r' k => ?_⟩, rfl, fun r' hr' k hk => ?_⟩
  · refine (h r' k).trans ?_
    split
    case isTrue hin =>
      dsimp only
      rw [show (r' * 18 + k) / 18 = r' by omega, show (r' * 18 + k) % 18 = k by omega]
    · rfl
  · dsimp only
    rw [show (r' * 18 + k) / 18 = r' by omega, show (r' * 18 + k) % 18 = k by omega]

/-! ## Texts -/

/-- The bytes of a text in ASCII. -/
def bytes (text : List Char) : List UInt8 := text.map Char.toUInt8

theorem print_eq (text : List Char) : print text = (bytes text).map Call.putc := by
  rw [print, bytes, List.map_map]
  rfl

theorem bytes_inj {text text' : List Char} (h : ∀ c ∈ text, c.toNat < 128) (h' : ∀ c ∈ text', c.toNat < 128) :
    bytes text = bytes text' ↔ text = text' := by
  have hback (text : List Char) (h : ∀ c ∈ text, c.toNat < 128) :
      (bytes text).map (fun b => Char.ofNat b.toNat) = text := by
    rw [bytes, List.map_map]
    refine (List.map_congr_left fun c hc => ?_).trans (List.map_id text)
    have hcode := h c hc
    rw [Function.comp, Firmware.toNat_toUInt8 (by omega), Char.ofNat_toNat, id]
  refine ⟨fun heq => ?_, congrArg bytes⟩
  rw [← hback text h, heq, hback text' h']

/-- A text that can be printed in a line. -/
structure Printable (text : List Char) : Prop where
  length_lt : text.length < 18
  ascii : ∀ c ∈ text, 32 ≤ c.toNat ∧ c.toNat < 128

theorem Printable.bytes {text : List Char} (h : Printable text) : ∀ c ∈ bytes text, ¬ c < 0x20 := by
  intro b hb
  obtain ⟨c, hc, rfl⟩ := List.mem_map.mp hb
  obtain ⟨hlow, hhigh⟩ := h.ascii c hc
  have hcode : c.toUInt8.toNat = c.toNat := Firmware.toNat_toUInt8 (by omega)
  rw [UInt8.lt_iff_toNat_lt, hcode]
  exact Nat.not_lt.mpr hlow

theorem printable_face (f : ClockFace) : Printable f.text := ⟨by rw [f.length_text]; decide, fun _ => ClockFace.toNat_of_mem_text⟩

theorem fits_print (text : List Char) : ∀ call ∈ print text, call.Fits := by
  intro call hcall
  obtain ⟨c, -, rfl⟩ := List.mem_map.mp hcall
  trivial

/-- A text that is printed behind a `locate`, over an old one that is not longer. -/
theorem Lines.print {text : List Char} (h : Lines t line) (hcol : d.max_col = 18) (hrow : d.max_row = 16) (r : UInt8)
    (hr : r.toNat < 16) (htext : Printable text) (hcover : (line r.toNat).length ≤ text.length) :
    Lines (shown t (calls.trace d (.locate 0 r :: print text))) (update line r.toNat (ULCD.bytes text)) ∧
      (calls.run d (.locate 0 r :: print text)).max_col = 18 ∧
      (calls.run d (.locate 0 r :: print text)).max_row = 16 := by
  obtain ⟨p, hdisplays, hpos, hlines⟩ := displays_locate hcol hrow h r hr
  have hlen : (ULCD.bytes text).length = text.length := List.length_map _
  obtain ⟨hlines', -⟩ := hlines.print hpos hr (hlen ▸ htext.length_lt) (hlen ▸ hcover) htext.bytes
  have hprinted := hdisplays.run (fits_print text)
  rw [← print_eq] at hlines'
  rw [Machine.trace_cons, Machine.run_cons, shown_append]
  exact ⟨hprinted.lines hlines', hprinted.max_col, hprinted.max_row⟩

/-- A text with a `\r` behind it, printed at the start of the first line. -/
theorem Displays.print_return {text : List Char} (h : Displays d t p) (hpos : p.pos = 0) (hlines : PageLines p line)
    (htext : Printable text) (hcover : (line 0).length ≤ text.length) :
    ∃ p', Displays (calls.run d (print (text ++ ['\r']))) (shown t (calls.trace d (print (text ++ ['\r'])))) p' ∧
      p'.pos = 0 ∧ PageLines p' (update line 0 (ULCD.bytes text)) := by
  have hlen : (ULCD.bytes text).length = text.length := List.length_map _
  have hlt := htext.length_lt
  obtain ⟨hprinted, hend⟩ := hlines.print (r := 0) (by omega) (by decide) (hlen ▸ hlt) (hlen ▸ hcover) htext.bytes
  have hcalls : (print (text ++ ['\r'])).foldl perform p =
      (((ULCD.bytes text).map Call.putc).foldl perform p).carriageReturn := by
    rw [print, List.map_append, List.foldl_append, ← print_eq]
    rfl
  refine ⟨_, h.run (fits_print _), ?_, ?_⟩
  · rw [hcalls, Page.pos_carriageReturn, hend]
    omega
  · rw [hcalls]
    intro r hr k hk
    rw [Page.cells_carriageReturn]
    exact hprinted r hr k hk

end

end ULCD

namespace Firmware

open Function ULCD TimeDisplay AlarmSet

section

variable {s : Display} {t : Terminal UInt8} {line : Nat → List UInt8} {m : MainState} {i : Inputs}

/-! ## One step -/

/-- Calls of one driver leave the other as it is. -/
theorem lcds_run (drivers : Lcd → ULCD) (o : Lcd) (cs : List Call) :
    lcds.run drivers (cs.map (o, ·)) = update drivers o (calls.run (drivers o) cs) ∧
      lcds.trace drivers (cs.map (o, ·)) = calls.trace (drivers o) cs := by
  induction cs generalizing drivers with
  | nil => exact ⟨(update_eq_self o drivers).symm, rfl⟩
  | cons call cs ih =>
    obtain ⟨hrun, htrace⟩ := ih (lcds.next drivers (o, call))
    have hnext : lcds.next drivers (o, call) = update drivers o (calls.next (drivers o) call) := rfl
    have hout : lcds.out drivers (o, call) = calls.out (drivers o) call := rfl
    rw [hnext, update_self] at hrun htrace
    rw [List.map_cons, Machine.run_cons, Machine.trace_cons, Machine.run_cons, Machine.trace_cons, hnext, hout,
      hrun, htrace, update_idem]
    exact ⟨rfl, rfl⟩

/-- The lines that the screen has, with both drivers ready to print. -/
structure Ready (drivers : Lcd → ULCD) (t : Terminal UInt8) (line : Nat → List UInt8) : Prop where
  max_col : ∀ o, (drivers o).max_col = 18
  max_row : ∀ o, (drivers o).max_row = 16
  lines : Lines t line

theorem Ready.updated {drivers : Lcd → ULCD} {t' : Terminal UInt8} {line' : Nat → List UInt8} {d : ULCD}
    (h : Ready drivers t line) (o : Lcd) (hcol : d.max_col = 18) (hrow : d.max_row = 16) (hlines : Lines t' line') :
    Ready (update drivers o d) t' line' := by
  refine ⟨fun o' => ?_, fun o' => ?_, hlines⟩
  · by_cases heq : o' = o
    · rw [heq, update_self, hcol]
    · rw [update_of_ne heq, h.max_col]
  · by_cases heq : o' = o
    · rw [heq, update_self, hrow]
    · rw [update_of_ne heq, h.max_row]

theorem Ready.print {drivers : Lcd → ULCD} (h : Ready drivers t line) (o : Lcd) (r : UInt8) (hr : r.toNat < 16)
    {text : List Char} (htext : Printable text) (hcover : (line r.toNat).length ≤ text.length) :
    Ready (lcds.run drivers (((.locate 0 r : Call) :: ULCD.print text).map (o, ·)))
      (shown t (lcds.trace drivers (((.locate 0 r : Call) :: ULCD.print text).map (o, ·))))
      (update line r.toNat (bytes text)) := by
  obtain ⟨hrun, htrace⟩ := lcds_run drivers o (.locate 0 r :: ULCD.print text)
  obtain ⟨hlines, hcol, hrow⟩ := h.lines.print (h.max_col o) (h.max_row o) r hr htext hcover
  rw [hrun, htrace]
  exact h.updated o hcol hrow hlines

/-- What a step of `main` makes of the lines. -/
def nextLine (m : MainState) (i : Inputs) (line : Nat → List UInt8) : Nat → List UInt8 :=
  match m.pc with
  | .setTime => if i.set then line else update line 0 (bytes (displayTime i.time))
  | .top =>
    update (update (update line 0 (bytes (displayTime i.time))) 5 (bytes "Alarm time:".toList)) 6
      (bytes (alarmDisplay m.globals.alarmTime))
  | .rearm => update line 0 (bytes (displayTime i.time))
  | _ => line

/-- In `setTime`, which has only one `locate`, the cursor is back at the start of the line
    whenever the loop is. -/
structure OnScreen (s : Display) (t : Terminal UInt8) (line : Nat → List UInt8) : Prop
    extends Ready s.drivers t line where
  cursor : s.main.pc = .setTime →
    ∃ p, Displays (s.drivers .timeScreen) t p ∧ p.pos = 0 ∧ PageLines p line

theorem printable_displayTime (seconds : Nat) : Printable (displayTime seconds) := by
  rw [displayTime_eq_text]
  exact printable_face _

theorem length_displayTime (seconds : Nat) : (displayTime seconds).length = 11 := by
  rw [displayTime_eq_text, ClockFace.length_text]

theorem printable_alarmText (v : Nat) : Printable (alarmText v) := printable_face _

theorem strftime_setTimeFormat (seconds : Nat) :
    Libc.strftime setTimeFormat (Libc.localtime seconds) = displayTime seconds ++ ['\r'] := by
  simp [setTimeFormat, displayTime, format, Libc.strftime]

/-- `main` is in `setTime` only until the button `set` is pressed. -/
theorem pc_setTime (h : (mainStep m i).1.pc = .setTime) : m.pc = .setTime ∧ i.set = false := by
  rw [mainStep] at h
  cases hpc : m.pc <;> simp only [hpc] at h
  case setTime =>
    split at h
    · cases h
    case isFalse hset => exact ⟨rfl, Bool.eq_false_iff.mpr hset⟩
  case compare => split at h <;> cases h
  case disarm =>
    split at h <;> cases h
  all_goals cases h

/-- A pass of the loop in `setTime`. -/
theorem OnScreen.setTime (h : OnScreen s t line) (hshort : ∀ r, (line r).length ≤ 11) (hpc : s.main.pc = .setTime)
    (hset : i.set = false) :
    OnScreen (display.next s i) (shown t (display.out s i)) (nextLine s.main i line) := by
  obtain ⟨p, hdisplays, hpos, hlines⟩ := h.cursor hpc
  have hprints : prints s.main i =
      (ULCD.print (displayTime i.time ++ ['\r'])).map (Lcd.timeScreen, ·) := by
    rw [prints, hpc, hset, ← strftime_setTimeFormat]
    rfl
  have hnext : nextLine s.main i line = update line 0 (bytes (displayTime i.time)) := by
    rw [nextLine, hpc, hset]
    rfl
  obtain ⟨p', hdisplays', hpos', hlines'⟩ := hdisplays.print_return hpos hlines (printable_displayTime i.time)
    (length_displayTime i.time ▸ hshort 0)
  obtain ⟨hrun, htrace⟩ := lcds_run s.drivers .timeScreen (ULCD.print (displayTime i.time ++ ['\r']))
  have hdrivers : (display.next s i).drivers =
      update s.drivers .timeScreen (calls.run (s.drivers .timeScreen) (ULCD.print (displayTime i.time ++ ['\r']))) := by
    rw [← hrun, ← hprints]
    rfl
  have hsent : display.out s i =
      calls.trace (s.drivers .timeScreen) (ULCD.print (displayTime i.time ++ ['\r'])) := by
    rw [← htrace, ← hprints]
    rfl
  rw [hsent, hnext]
  refine ⟨hdrivers ▸ h.toReady.updated .timeScreen hdisplays'.max_col hdisplays'.max_row (hdisplays'.lines hlines'),
    fun _ => ⟨p', ?_, hpos', hlines'⟩⟩
  rw [hdrivers, update_self]
  exact hdisplays'

theorem Ready.displayTime {drivers : Lcd → ULCD} (h : Ready drivers t line) (hshort : (line 0).length ≤ 11)
    (seconds : Nat) :
    Ready (lcds.run drivers (displayTimeCalls seconds)) (shown t (lcds.trace drivers (displayTimeCalls seconds)))
      (update line 0 (bytes (TimeDisplay.displayTime seconds))) :=
  h.print .timeScreen 0 (by decide) (printable_displayTime seconds) (length_displayTime seconds ▸ hshort)

theorem Ready.alarmDisplay {drivers : Lcd → ULCD} (h : Ready drivers t line) (htitle : (line 5).length ≤ 11)
    (halarm : (line 6).length ≤ 11) (v : Nat) :
    Ready (lcds.run drivers (alarmDisplayCalls (alarmText v)))
      (shown t (lcds.trace drivers (alarmDisplayCalls (alarmText v))))
      (update (update line 5 (bytes "Alarm time:".toList)) 6 (bytes (alarmText v))) := by
  have hprintable : Printable "Alarm time:".toList := ⟨by decide, by simp⟩
  have hfirst := h.print .alarm 5 (by decide) hprintable htitle
  have hsecond := hfirst.print .alarm 6 (by decide) (printable_alarmText v) halarm
  rw [alarmDisplayCalls, List.cons_append, ← List.cons_append, List.map_append, Machine.run_append,
    Machine.trace_append, shown_append]
  exact hsecond

theorem OnScreen.step (h : OnScreen s t line) (hshort : ∀ r, (line r).length ≤ 11)
    (halarm : ∃ v, s.main.globals.alarmTime = alarmText v) (i : Inputs) :
    OnScreen (display.next s i) (shown t (display.out s i)) (nextLine s.main i line) := by
  obtain ⟨v, hv⟩ := halarm
  have hnext : (display.next s i).drivers = lcds.run s.drivers (prints s.main i) := rfl
  have hout : display.out s i = lcds.trace s.drivers (prints s.main i) := rfl
  by_cases hloop : (mainStep s.main i).1.pc = .setTime
  · obtain ⟨hpc, hset⟩ := pc_setTime hloop
    exact h.setTime hshort hpc hset
  · refine { toReady := ?_, cursor := fun hpc => absurd hpc hloop }
    rw [hnext, hout]
    have hsilent (hprints : prints s.main i = []) (hsame : nextLine s.main i line = line) :
        Ready (lcds.run s.drivers (prints s.main i)) (shown t (lcds.trace s.drivers (prints s.main i)))
          (nextLine s.main i line) := by
      rw [hprints, hsame, Machine.run_nil, Machine.trace_nil, shown_nil]
      exact h.toReady
    cases hpc : s.main.pc with
    | setTime =>
      have hset : i.set = true := by
        by_contra hset
        exact hloop (by simp [mainStep, hpc, hset])
      exact hsilent (by simp [prints, hpc, hset]) (by simp [nextLine, hpc, hset])
    | top =>
      have hprints : prints s.main i = displayTimeCalls i.time ++ alarmDisplayCalls (alarmText v) := by
        rw [prints, hpc, hv]
      have hline : nextLine s.main i line = update (update (update line 0
          (bytes (displayTime i.time))) 5 (bytes "Alarm time:".toList)) 6 (bytes (alarmText v)) := by
        rw [nextLine, hpc, hv]
        rfl
      have htime := h.toReady.displayTime (hshort 0) i.time
      rw [hprints, hline, Machine.run_append, Machine.trace_append, shown_append]
      exact htime.alarmDisplay (hshort 5) (hshort 6) v
    | rearm =>
      have hprints : prints s.main i = displayTimeCalls i.time := by rw [prints, hpc]
      have hline : nextLine s.main i line = update line 0 (bytes (displayTime i.time)) := by
        rw [nextLine, hpc]
      rw [hprints, hline]
      exact h.toReady.displayTime (hshort 0) i.time
    | startSpeaker | startLED | launch | compare | stopA | stopB | ring | select | disarm =>
      exact hsilent (by rw [prints, hpc]) (by rw [nextLine, hpc])

/-! ## Every run -/

/-- From the top of the loop, behind the two prints, up to its end. -/
def Pc.inner : Pc → Bool
  | .setTime | .startSpeaker | .startLED | .top => false
  | _ => true

theorem disarmPass_texts (i : Samples) (g : Globals) :
    (disarmPass i g).1.alarmTime = g.alarmTime ∧ (disarmPass i g).1.currentTime = g.currentTime ∧
      (disarmPass i g).1.currentAlarmTime = g.currentAlarmTime := by
  have hoff : (shutOff g).1.alarmTime = g.alarmTime ∧ (shutOff g).1.currentTime = g.currentTime ∧
      (shutOff g).1.currentAlarmTime = g.currentAlarmTime := by
    unfold shutOff
    split <;> exact ⟨rfl, rfl, rfl⟩
  simp only [disarmPass]
  rcases ladder_cases i (shutOff g).1 with ⟨c, -, -, heq⟩ | ⟨c, -, -, heq⟩ | ⟨-, heq⟩
  · rw [heq]
    exact hoff
  · rw [heq]
    exact hoff
  · obtain ⟨game, hgame⟩ := refresh_globals i (shutOff g).1
    rw [heq, hgame]
    exact hoff

/-- The lines are what `main` has in its strings. -/
structure Texts (m : MainState) (line : Nat → List UInt8) : Prop where
  alarm : ∃ v, m.globals.alarmTime = alarmText v
  short : ∀ r, (line r).length ≤ 11
  other : ∀ r, r ≠ 0 → r ≠ 5 → r ≠ 6 → line r = []
  inner : m.pc.inner = true → ∃ seconds v,
    m.globals.currentTime = displayTime seconds ∧ m.globals.currentAlarmTime = alarmText v ∧
      line 0 = bytes (displayTime seconds) ∧ line 5 = bytes "Alarm time:".toList ∧ line 6 = bytes (alarmText v)

theorem editAlarm_alarmText (i : Inputs) (v : Nat) : ∃ w, editAlarm i (alarmText v) = alarmText w := by
  rw [editAlarm]
  split
  · exact ⟨_, hourSet_alarmText v⟩
  · split
    · by_cases hlost : v % 720 = 599
      · exact ⟨_, minuteSet_alarmText_lost hlost⟩
      · exact ⟨_, minuteSet_alarmText hlost⟩
    · exact ⟨v, rfl⟩

theorem length_bytes (text : List Char) : (bytes text).length = text.length := List.length_map _

theorem Texts.congr {m' : MainState} (h : Texts m line) (halarm : m'.globals.alarmTime = m.globals.alarmTime)
    (hcurrent : m'.globals.currentTime = m.globals.currentTime)
    (hcurrentAlarm : m'.globals.currentAlarmTime = m.globals.currentAlarmTime)
    (hinner : m'.pc.inner = true → m.pc.inner = true) : Texts m' line := by
  refine ⟨halarm ▸ h.alarm, h.short, h.other, fun hin => ?_⟩
  rw [hcurrent, hcurrentAlarm]
  exact h.inner (hinner hin)

theorem short_update (hshort : ∀ r, (line r).length ≤ 11) {r : Nat} {text : List Char} (hlen : text.length ≤ 11)
    (r' : Nat) : (update line r (bytes text) r').length ≤ 11 := by
  by_cases heq : r' = r
  · rwa [heq, update_self, length_bytes]
  · rw [update_of_ne heq]
    exact hshort r'

theorem Texts.step (h : Texts m line) (i : Inputs) : Texts (mainStep m i).1 (nextLine m i line) := by
  obtain ⟨v, hv⟩ := h.alarm
  have htime := (length_displayTime i.time).le
  cases hpc : m.pc with
  | setTime =>
    rw [mainStep, nextLine, hpc]
    dsimp only
    split
    · exact h.congr rfl rfl rfl fun hin => absurd hin Bool.false_ne_true
    · refine ⟨h.alarm, short_update h.short htime, fun r h0 h5 h6 => ?_, fun hin => ?_⟩
      · rw [update_of_ne h0]
        exact h.other r h0 h5 h6
      · simp [Pc.inner] at hin
  | top =>
    rw [mainStep, nextLine, hpc, hv]
    refine ⟨?_, ?_, fun r h0 h5 h6 => ?_, fun _ => ⟨i.time, v, rfl, hv, rfl, rfl, rfl⟩⟩
    · obtain ⟨w, hw⟩ := editAlarm_alarmText i v
      exact ⟨w, by rw [topStep, hv]; exact hw⟩
    · refine short_update (short_update (short_update h.short htime) (by decide)) ?_
      exact (ClockFace.length_text _).le
    · dsimp only
      rw [update_of_ne h6, update_of_ne h5, update_of_ne h0]
      exact h.other r h0 h5 h6
  | rearm =>
    obtain ⟨_, w, -, halarm, -, htitle, hline⟩ := h.inner (by rw [hpc]; rfl)
    rw [mainStep, nextLine, hpc]
    refine ⟨h.alarm, short_update h.short htime, fun r h0 h5 h6 => ?_,
      fun _ => ⟨i.time, w, rfl, halarm, rfl, htitle, hline⟩⟩
    dsimp only
    rw [update_of_ne h0]
    exact h.other r h0 h5 h6
  | disarm =>
    obtain ⟨halarm, hcurrent, hcurrentAlarm⟩ := disarmPass_texts i.toSamples m.globals
    rw [mainStep, nextLine, hpc]
    dsimp only
    split
    · exact h.congr halarm hcurrent hcurrentAlarm fun _ => hpc ▸ rfl
    · exact h.congr rfl rfl rfl fun hin => absurd hin Bool.false_ne_true
  | compare =>
    rw [mainStep, nextLine, hpc]
    dsimp only
    split
    · exact h.congr rfl rfl rfl fun _ => hpc ▸ rfl
    · exact h.congr rfl rfl rfl fun hin => absurd hin Bool.false_ne_true
  | startSpeaker | startLED =>
    rw [mainStep, nextLine, hpc]
    exact h.congr rfl rfl rfl fun hin => absurd hin Bool.false_ne_true
  | launch | stopA | stopB | ring | select =>
    rw [mainStep, nextLine, hpc]
    exact h.congr rfl rfl rfl fun _ => hpc ▸ rfl

theorem onScreen_init (memory : Lcd → ULCD) (t : Terminal UInt8) :
    OnScreen (Display.init memory).1 (shown t (Display.init memory).2) fun _ => [] := by
  have htime := displays_init (memory .timeScreen) t
  have halarm := displays_init (memory .alarm) (shown t (memory .timeScreen).init.2)
  have hempty : Lines (shown (shown t (memory .timeScreen).init.2) (memory .alarm).init.2) fun _ => [] :=
    halarm.lines fun _ _ _ _ => rfl
  obtain ⟨p, hdisplays, hpos, hlines⟩ := displays_locate htime.max_col htime.max_row hempty 0 (by decide)
  have hdrivers : (Display.init memory).1.drivers =
      update (fun o => (memory o).init.1) .timeScreen ((memory .timeScreen).init.1.locate 0 0).1 := rfl
  have hsent : (Display.init memory).2 = (memory .timeScreen).init.2 ++ (memory .alarm).init.2 ++
      ((memory .timeScreen).init.1.locate 0 0).2 := rfl
  have hready : Ready (fun o => (memory o).init.1)
      (shown (shown t (memory .timeScreen).init.2) (memory .alarm).init.2) fun _ => [] :=
    ⟨fun o => (displays_init (memory o) t).max_col, fun o => (displays_init (memory o) t).max_row, hempty⟩
  rw [hsent, shown_append, shown_append]
  refine ⟨hdrivers ▸ hready.updated .timeScreen hdisplays.max_col hdisplays.max_row (hdisplays.lines hlines),
    fun _ => ⟨p, ?_, hpos, hlines⟩⟩
  rw [hdrivers, update_self]
  exact hdisplays

/-- The display in every run: what is on the screen, and which of it is what. -/
theorem display_run (memory : Lcd → ULCD) (t : Terminal UInt8) (is : List Inputs) :
    (display.run (Display.init memory).1 is).main = mainThread.run MainState.init is ∧
      ∃ line, Lines (shown t ((Display.init memory).2 ++ display.trace (Display.init memory).1 is)) line ∧
        Texts (mainThread.run MainState.init is) line := by
  have hrun := display.history (s := (Display.init memory).1)
    (J := fun is sent s => s.main = mainThread.run MainState.init is ∧
      ∃ line, OnScreen s (shown t ((Display.init memory).2 ++ sent)) line ∧ Texts s.main line)
    ?_ (fun is sent s i h => ?_) is
  · obtain ⟨hmain, line, hscreen, htexts⟩ := hrun
    exact ⟨hmain, line, hscreen.lines, hmain ▸ htexts⟩
  · refine ⟨rfl, fun _ => [], ?_, ⟨0, rfl⟩, fun _ => Nat.zero_le _, fun _ _ _ _ => rfl, nofun⟩
    rw [List.append_nil]
    exact onScreen_init memory t
  · obtain ⟨hmain, line, hscreen, htexts⟩ := h
    refine ⟨?_, nextLine s.main i line, ?_, htexts.step i⟩
    · rw [Machine.run_concat, ← hmain]
      rfl
    · rw [← List.append_assoc, shown_append]
      exact hscreen.step htexts.short htexts.alarm i

/-- In every run, while `main` is in its loop behind the prints, the screen shows the two
    strings that `main` compares, each in its line, and nothing is ever printed outside
    these lines. -/
theorem shows_what_is_compared (memory : Lcd → ULCD) (t : Terminal UInt8) (is : List Inputs) :
    let m := mainThread.run MainState.init is
    let screen := shown t ((Display.init memory).2 ++ display.trace (Display.init memory).1 is)
    (m.pc.inner = true → screen.Shows 0 (bytes m.globals.currentTime) ∧
      screen.Shows 5 (bytes "Alarm time:".toList) ∧ screen.Shows 6 (bytes m.globals.currentAlarmTime)) ∧
    ∀ r k, screen.cells r k ≠ none → (r = 0 ∨ r = 5 ∨ r = 6) ∧ k < 11 := by
  intro m screen
  obtain ⟨-, line, hlines, htexts⟩ := display_run memory t is
  refine ⟨fun hinner => ?_, fun r k hcell => ?_⟩
  · obtain ⟨seconds, v, hcurrent, halarm, h0, h5, h6⟩ := htexts.inner hinner
    rw [hcurrent, halarm, ← h0, ← h5, ← h6]
    exact ⟨hlines.shows (by decide) (htexts.short 0), hlines.shows (by decide) (htexts.short 5),
      hlines.shows (by decide) (htexts.short 6)⟩
  · rw [hlines] at hcell
    split at hcell
    case isTrue hin =>
      refine ⟨?_, ?_⟩
      · by_contra hrow
        rw [not_or, not_or] at hrow
        rw [htexts.other r hrow.1 hrow.2.1 hrow.2.2] at hcell
        exact hcell rfl
      · by_contra hk
        have hshort := htexts.short r
        exact hcell (List.getElem?_eq_none (by omega))
    · exact absurd rfl hcell

theorem pc_compare (hpc : m.pc = .compare) (i : Inputs) :
    (mainStep m i).1.pc = .stopA ↔ m.globals.currentAlarmTime = m.globals.currentTime := by
  rw [mainStep, hpc]
  dsimp only
  split
  case isTrue heq => exact iff_of_true rfl heq
  case isFalse hne => exact iff_of_false (by simp) hne

/-- The alarm goes off exactly if the clock's line and the alarm's line look the same. -/
theorem rings_iff_lines_equal (memory : Lcd → ULCD) (t : Terminal UInt8) (is : List Inputs) (i : Inputs)
    (hpc : (mainThread.run MainState.init is).pc = .compare) :
    let screen := shown t ((Display.init memory).2 ++ display.trace (Display.init memory).1 is)
    (mainThread.run MainState.init (is ++ [i])).pc = .stopA ↔ ∀ k, screen.cells 0 k = screen.cells 6 k := by
  intro screen
  obtain ⟨-, line, hlines, htexts⟩ := display_run memory t is
  obtain ⟨seconds, v, hcurrent, halarm, h0, -, h6⟩ := htexts.inner (hpc ▸ rfl)
  have hrows : (∀ k, screen.cells 0 k = screen.cells 6 k) ↔ line 0 = line 6 := by
    have hfirst := hlines.shows (r := 0) (by decide) (htexts.short 0)
    have hsecond := hlines.shows (r := 6) (by decide) (htexts.short 6)
    refine Iff.trans (forall_congr' fun k => ?_) List.ext_getElem?_iff.symm
    rw [hfirst k, hsecond k]
  have hbytes : line 0 = line 6 ↔ displayTime seconds = alarmText v := by
    rw [h0, h6]
    exact bytes_inj (fun c hc => ((printable_displayTime seconds).ascii c hc).2)
      fun c hc => ((printable_alarmText v).ascii c hc).2
  have hstep := pc_compare hpc i
  rw [hcurrent, halarm] at hstep
  rw [hrows, hbytes, Machine.run_concat, eq_comm (a := displayTime seconds)]
  exact hstep

/-- The screen and the memory of the drivers before anything is sent. -/
def dark : Terminal UInt8 := ⟨0, 0, fun _ _ => none⟩

def zeroed (_ : Lcd) : ULCD := ⟨0, 0, 0, 0, 0, 0, 0, 0, 0, 0, 0, 0, 0⟩

/-- The clock is started at 12:00:00 AM, which is the alarm. -/
theorem rings_iff_lines_equal_at_midnight :
    (shown dark ((Display.init zeroed).2 ++
        display.trace (Display.init zeroed).1 (List.replicate 5 (.showing 0 none)))).cells 0 =
      (shown dark ((Display.init zeroed).2 ++
        display.trace (Display.init zeroed).1 (List.replicate 5 (.showing 0 none)))).cells 6 :=
  funext ((rings_iff_lines_equal zeroed dark (List.replicate 5 (.showing 0 none)) (.showing 0 none)
    (by decide +kernel)).mp (by decide +kernel))

end

end Firmware
