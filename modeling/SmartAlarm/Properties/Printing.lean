-- SUMMARY: Printing: what the driver makes of the screen is a page that wraps, whatever is printed on it.
import SmartAlarm.Firmware.Screen
import Mathlib.Tactic.SplitIfs
import Mathlib.Data.UInt

/-!
# Printing

The screen goes where it is told. The driver tells it so that it is a page of 18
columns and 16 rows: a full line is followed by the next one, the last line by the
first, and no character is written outside.
-/

namespace ULCD

section

variable {d : ULCD} {t : Terminal UInt8}

/-! ## Commands -/

@[simp] theorem shown_nil (t : Terminal UInt8) : shown t [] = t := rfl
@[simp] theorem shown_cons (t : Terminal UInt8) (frame : Frame) (sent : List Frame) :
    shown t (frame :: sent) = shown (receive t frame) sent := rfl

theorem shown_append (t : Terminal UInt8) (sent sent' : List Frame) :
    shown t (sent ++ sent') = shown (shown t sent) sent' := List.foldl_append

@[simp] theorem receive_moveCursor (t : Terminal UInt8) (d : ULCD) :
    receive t d.moveCursor = { t with row := d.current_row.toNat, col := d.current_col.toNat } := rfl

@[simp] theorem receive_putchar (t : Terminal UInt8) (c : UInt8) :
    receive t (writeCOMMAND [PUTCHAR, 0, c]) = t.apply (.write c) := rfl

@[simp] theorem receive_cls (t : Terminal UInt8) :
    receive t (writeCOMMAND [CLS]) = t.apply .clear := rfl

@[simp] theorem receive_setFont (t : Terminal UInt8) (mode : UInt8) :
    receive t (writeCOMMAND [SETFONT, 0, mode]) = t := rfl

/-! ## The three parts of `putc` -/

/-- The driver knows the size of the page, and where the screen's cursor is. -/
structure Synced (d : ULCD) (t : Terminal UInt8) : Prop where
  max_col : d.max_col = 18
  max_row : d.max_row = 16
  row : t.row = d.current_row.toNat
  col : t.col = d.current_col.toNat

/-- The driver's place in reading order. -/
def place (d : ULCD) : Nat := d.current_row.toNat * 18 + d.current_col.toNat

theorem set_font_spec (hwf : d.current_wf = 1) (hhf : d.current_hf = 1) :
    (d.set_font FONT_7X8).1.max_col = 18 ∧ (d.set_font FONT_7X8).1.max_row = 16 := by
  have hfont : fontSize FONT_7X8 = (7, 8) := by decide
  simp [set_font, hfont, SIZE_X, SIZE_Y, hwf, hhf]

theorem cls_spec (d : ULCD) (t : Terminal UInt8) :
    Synced d.cls.1 (shown t d.cls.2) ∧ d.cls.1.current_col.toNat < 18 ∧ d.cls.1.place = 0 ∧
      shown t d.cls.2 = t.apply .clear := by
  obtain ⟨hcol, hrow⟩ := set_font_spec (d := { d with
    current_row := 0
    current_col := 0
    current_hf := 1
    current_wf := 1 }) rfl rfl
  exact ⟨⟨hcol, hrow, rfl, rfl⟩, (by decide : (0 : UInt8).toNat < 18), rfl, rfl⟩

theorem toNat_succ {a : UInt8} (h : a.toNat < 255) : (a + 1).toNat = a.toNat + 1 := by
  rw [UInt8.toNat_add]
  exact Nat.mod_eq_of_lt (by simp; omega)

theorem wrapColumn_spec (h : Synced d t) (hcol : d.current_col.toNat ≤ 18) (hplace : d.place ≤ 288) :
    Synced d.wrapColumn.1 (shown t d.wrapColumn.2) ∧ d.wrapColumn.1.current_col.toNat < 18 ∧
      d.wrapColumn.1.place = d.place ∧ (shown t d.wrapColumn.2).cells = t.cells := by
  have hfull : d.current_col = d.max_col ↔ d.current_col.toNat = 18 := by
    rw [h.max_col, ← UInt8.toNat_inj]
    rfl
  have hrow : d.current_row.toNat < 255 := by
    rw [place] at hplace
    omega
  rw [wrapColumn]
  by_cases hend : d.current_col = d.max_col
  · rw [if_pos hend]
    refine ⟨⟨h.max_col, h.max_row, rfl, rfl⟩, (by decide : (0 : UInt8).toNat < 18), ?_, rfl⟩
    rw [hfull] at hend
    rw [place, place, toNat_succ hrow, hend]
    simp only [UInt8.toNat_zero]
    omega
  · rw [if_neg hend]
    rw [hfull] at hend
    exact ⟨h, Nat.lt_of_le_of_ne hcol hend, rfl, rfl⟩

theorem wrapRow_spec (h : Synced d t) (hcol : d.current_col.toNat < 18) (hplace : d.place ≤ 288) :
    Synced d.wrapRow.1 (shown t d.wrapRow.2) ∧ d.wrapRow.1.current_col.toNat < 18 ∧
      d.wrapRow.1.place = d.place % 288 ∧ (shown t d.wrapRow.2).cells = t.cells := by
  have hfull : d.current_row = d.max_row ↔ d.current_row.toNat = 16 := by
    rw [h.max_row, ← UInt8.toNat_inj]
    rfl
  rw [place] at hplace
  rw [wrapRow]
  by_cases hend : d.current_row = d.max_row
  · rw [if_pos hend]
    refine ⟨⟨h.max_col, h.max_row, rfl, rfl⟩, hcol, ?_, rfl⟩
    rw [hfull] at hend
    rw [place, place, hend]
    simp only [UInt8.toNat_zero]
    omega
  · rw [if_neg hend]
    rw [hfull] at hend
    refine ⟨h, hcol, ?_, rfl⟩
    dsimp only
    rw [place]
    omega

/-! ## The page -/

/-- The page that the screen is, with the driver's cursor at the place that is next. -/
structure Displays (d : ULCD) (t : Terminal UInt8) (p : Page UInt8 18 16) : Prop extends Synced d t where
  col_lt : d.current_col.toNat < 18
  pos : p.pos = d.place
  cells : ∀ r k, t.cells r k = if r < 16 ∧ k < 18 then p.cells (r * 18 + k) else none

/-- What a call is for the page. -/
def perform (p : Page UInt8 18 16) : Call → Page UInt8 18 16
  | .locate col row => p.move row.toNat col.toNat
  | .putc c =>
    if c < 0x20 then
      if c = 10 then p.newline
      else if c = 13 then p.carriageReturn
      else if c = 12 then p.clear
      else p
    else p.put c
  | .cls => p.clear

/-- A place for `locate` has to be on the page. -/
def Call.Fits : Call → Prop
  | .locate col row => col < 18 ∧ row < 16
  | _ => True

variable {p : Page UInt8 18 16} {c : UInt8}

theorem Displays.row_lt (h : Displays d t p) : d.current_row.toNat < 16 := by
  have hpos := h.pos ▸ p.pos_lt
  rw [place] at hpos
  omega

theorem Displays.div (h : Displays d t p) : p.pos / 18 = d.current_row.toNat := by
  have hcol := h.col_lt
  rw [h.pos, place]
  omega

/-- The second and the third part of `putc` finish what the first has begun. -/
theorem Displays.of_putCharacter {r : ULCD × List Frame} (hput : d.putCharacter c = r)
    (hsynced : Synced r.1 (shown t r.2)) (hcol : r.1.current_col.toNat ≤ 18) (hplace : r.1.place ≤ 288)
    (hpos : p.pos = r.1.place % 288)
    (hcells : ∀ r' k, (shown t r.2).cells r' k = if r' < 16 ∧ k < 18 then p.cells (r' * 18 + k) else none) :
    Displays (d.putc c).1 (shown t (d.putc c).2) p := by
  obtain ⟨hsynced₁, hlt₁, hplace₁, hcells₁⟩ := wrapColumn_spec hsynced hcol hplace
  obtain ⟨hsynced₂, hlt₂, hplace₂, hcells₂⟩ := wrapRow_spec hsynced₁ hlt₁ (hplace₁ ▸ hplace)
  have hshown : shown t (d.putc c).2 = shown (shown (shown t r.2) r.1.wrapColumn.2) r.1.wrapColumn.1.wrapRow.2 := by
    rw [putc, hput]
    dsimp only
    rw [shown_append, shown_append]
  have hdriver : (d.putc c).1 = r.1.wrapColumn.1.wrapRow.1 := by
    rw [putc, hput]
  rw [hdriver, hshown]
  refine ⟨hsynced₂, hlt₂, ?_, fun r' k => ?_⟩
  · rw [hplace₂, hplace₁, hpos]
  · rw [hcells₂, hcells₁, hcells]

/-- A character that is printed goes to the place that is next. -/
theorem Displays.put (h : Displays d t p) (hc : ¬ c < 0x20) :
    Displays (d.putc c).1 (shown t (d.putc c).2) (p.put c) := by
  have hcol := h.col_lt
  have hrow := h.row_lt
  have hnext := toNat_succ (a := d.current_col) (by omega)
  have hput : d.putCharacter c =
      ({ d with current_col := d.current_col + 1 }, [writeCOMMAND [PUTCHAR, 0, c]]) := by
    rw [putCharacter, if_neg hc]
  have hplace : place { d with current_col := d.current_col + 1 } = d.place + 1 := by
    rw [place, place, hnext]
    rfl
  have hlt : d.place < 288 := h.pos ▸ p.pos_lt
  refine .of_putCharacter hput ⟨h.max_col, h.max_row, h.row, ?_⟩ (hnext ▸ hcol) (hplace ▸ hlt) ?_
    fun r k => ?_
  · simp only [shown_cons, shown_nil, receive_putchar, Terminal.apply, h.col, hnext]
  · rw [Page.pos_put, h.pos, hplace]
  · simp only [shown_cons, shown_nil, receive_putchar, Terminal.apply, Page.cells_put, h.cells, h.row, h.col,
      h.pos, place]
    by_cases hhere : r = d.current_row.toNat ∧ k = d.current_col.toNat
    · have hin : r < 16 ∧ k < 18 := by omega
      rw [if_pos hhere, if_pos hin, if_pos (by rw [hhere.1, hhere.2])]
    · rw [if_neg hhere]
      by_cases hin : r < 16 ∧ k < 18
      · rw [if_pos hin, if_pos hin, if_neg (by omega)]
      · rw [if_neg hin, if_neg hin]

/-- The cursor moves to a place that is next to the page at most. -/
theorem Displays.moved {p' : Page UInt8 18 16} {col row : UInt8} (h : Displays d t p)
    (hput : d.putCharacter c =
      ({ d with current_col := col, current_row := row },
        [moveCursor { d with current_col := col, current_row := row }]))
    (hcol : col.toNat ≤ 18) (hplace : row.toNat * 18 + col.toNat ≤ 288)
    (hpos : p'.pos = (row.toNat * 18 + col.toNat) % 288) (hcells : p'.cells = p.cells) :
    Displays (d.putc c).1 (shown t (d.putc c).2) p' :=
  .of_putCharacter hput ⟨h.max_col, h.max_row, rfl, rfl⟩ hcol hplace hpos fun r k => hcells ▸ h.cells r k

theorem displays_cls (d : ULCD) (t : Terminal UInt8) (p : Page UInt8 18 16) :
    Displays d.cls.1 (shown t d.cls.2) p.clear := by
  obtain ⟨hsynced, hlt, hplace, hshown⟩ := cls_spec d t
  refine ⟨hsynced, hlt, hplace.symm, fun r k => ?_⟩
  rw [hshown, Page.cells_clear, ite_self]
  rfl

theorem Displays.putc (h : Displays d t p) (c : UInt8) :
    Displays (d.putc c).1 (shown t (d.putc c).2) (perform p (.putc c)) := by
  have hcol := h.col_lt
  have hrow := h.row_lt
  have hlt : d.place < 288 := h.pos ▸ p.pos_lt
  have hnext := toNat_succ (a := d.current_row) (by omega)
  rw [perform]
  by_cases hc : c < 0x20
  · rw [if_pos hc]
    by_cases hnewline : c = 10
    · have hput : d.putCharacter c =
          ({ d with current_col := 0, current_row := d.current_row + 1 },
            [moveCursor { d with current_col := 0, current_row := d.current_row + 1 }]) := by
        rw [putCharacter, if_pos hc, if_pos hnewline]
      rw [if_pos hnewline]
      refine h.moved hput (by decide) ?_ ?_ p.cells_newline
      · simp only [hnext, UInt8.toNat_zero]
        omega
      · rw [p.pos_newline, h.div, hnext, UInt8.toNat_zero]
        omega
    · rw [if_neg hnewline]
      by_cases hreturn : c = 13
      · have hput : d.putCharacter c =
            ({ d with current_col := 0 }, [moveCursor { d with current_col := 0 }]) := by
          rw [putCharacter, if_pos hc, if_neg hnewline, if_pos hreturn]
        rw [if_pos hreturn]
        refine h.moved hput (by decide) ?_ ?_ p.cells_carriageReturn
        · simp only [UInt8.toNat_zero]
          omega
        · rw [p.pos_carriageReturn, h.div, UInt8.toNat_zero]
          omega
      · rw [if_neg hreturn]
        by_cases hfeed : c = 12
        · have hput : d.putCharacter c = d.cls := by
            rw [putCharacter, if_pos hc, if_neg hnewline, if_neg hreturn, if_pos hfeed]
          have hcls := displays_cls d t p
          have hplace : d.cls.1.place = 0 := hcls.pos.symm
          rw [if_pos hfeed]
          exact .of_putCharacter hput hcls.toSynced hcls.col_lt.le (hplace ▸ Nat.zero_le _)
            (hplace ▸ rfl) hcls.cells
        · have hput : d.putCharacter c = (d, []) := by
            rw [putCharacter, if_pos hc, if_neg hnewline, if_neg hreturn, if_neg hfeed]
          rw [if_neg hfeed]
          exact .of_putCharacter hput h.toSynced hcol.le hlt.le
            (by rw [h.pos, Nat.mod_eq_of_lt hlt]) h.cells
  · rw [if_neg hc]
    exact h.put hc

theorem Displays.locate (h : Displays d t p) {col row : UInt8} (hcol : col < 18) (hrow : row < 16) :
    Displays (d.locate col row).1 (shown t (d.locate col row).2) (p.move row.toNat col.toNat) := by
  refine ⟨⟨h.max_col, h.max_row, rfl, rfl⟩, UInt8.lt_iff_toNat_lt.mp hcol,
    p.pos_move (UInt8.lt_iff_toNat_lt.mp hrow) (UInt8.lt_iff_toNat_lt.mp hcol), fun r k => ?_⟩
  rw [p.cells_move]
  exact h.cells r k

theorem Displays.call (h : Displays d t p) {call : Call} (hfits : call.Fits) :
    Displays (calls.next d call) (shown t (calls.out d call)) (perform p call) := by
  cases call with
  | locate col row => exact h.locate hfits.1 hfits.2
  | putc c => exact h.putc c
  | cls => exact displays_cls d t p

theorem Displays.run {cs : List Call} (h : Displays d t p) (hfits : ∀ call ∈ cs, call.Fits) :
    Displays (calls.run d cs) (shown t (calls.trace d cs)) (cs.foldl perform p) := by
  induction cs generalizing d t p with
  | nil => exact h
  | cons call cs ih =>
    obtain ⟨hcall, hcs⟩ := List.forall_mem_cons.mp hfits
    rw [Machine.run_cons, Machine.trace_cons, shown_append]
    exact ih (h.call hcall) hcs

def emptyPage : Page UInt8 18 16 := ⟨0, by decide, fun _ => none⟩

theorem displays_init (d : ULCD) (t : Terminal UInt8) :
    Displays d.init.1 (shown t d.init.2) emptyPage := by
  have hcls := displays_cls d t emptyPage
  obtain ⟨hcol, hrow⟩ := set_font_spec (d := { d.cls.1 with
    current_col := 0
    current_row := 0
    current_color := WHITE
    current_orientation := IS_PORTRAIT
    current_hf := 1
    current_wf := 1 }) rfl rfl
  exact ⟨⟨hcol, hrow, rfl, rfl⟩, (by decide : (0 : UInt8).toNat < 18), rfl, hcls.cells⟩

/-- Whatever is called after the constructor, and whatever the memory and the screen held
    before it: the screen shows the page that the calls are meant to print, and the
    driver's cursor is where the next character will appear. -/
theorem prints_page (d : ULCD) (t : Terminal UInt8) {cs : List Call} (hfits : ∀ call ∈ cs, call.Fits) :
    Displays (calls.run d.init.1 cs) (shown t (d.init.2 ++ calls.trace d.init.1 cs))
      (cs.foldl perform emptyPage) := by
  rw [shown_append]
  exact (displays_init d t).run hfits

theorem prints_page_last_place :
    Displays (calls.run (init ⟨0, 0, 0, 0, 0, 0, 0, 0, 0, 0, 0, 0, 0⟩).1 [.locate 17 15, .putc 65])
      (shown ⟨0, 0, fun _ _ => none⟩ ((init ⟨0, 0, 0, 0, 0, 0, 0, 0, 0, 0, 0, 0, 0⟩).2 ++
        calls.trace (init ⟨0, 0, 0, 0, 0, 0, 0, 0, 0, 0, 0, 0, 0⟩).1 [.locate 17 15, .putc 65]))
      ([.locate 17 15, .putc 65].foldl perform emptyPage) :=
  prints_page _ _ (by simp [Call.Fits])

/-- In this run the cursor is back at the first place of the page. -/
example : ([.locate 17 15, .putc 65].foldl perform emptyPage).pos = 0 := by decide

end

end ULCD
