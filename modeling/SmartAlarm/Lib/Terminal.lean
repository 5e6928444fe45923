-- SUMMARY: Text screens: a terminal that writes where it is told, and a page that goes on in the next line by itself.
import Mathlib.Tactic.TypeStar

/-!
# Text screens

A terminal knows nothing of its own size: what is written behind the end of a line
is lost, so whoever writes has to keep count of the columns. A page has a size. Its
cells are in reading order, and behind the last one comes the first.
-/

/-- What a terminal can be told. -/
inductive TerminalOp (α : Type*) where
  | move (row col : Nat)
  | write (c : α)
  | clear

structure Terminal (α : Type*) where
  row : Nat
  col : Nat
  cells : Nat → Nat → Option α

namespace Terminal

variable {α : Type*}

def apply (t : Terminal α) : TerminalOp α → Terminal α
  | .move row col => { t with row := row, col := col }
  | .write c =>
    { t with
      col := t.col + 1
      cells := fun r k => if r = t.row ∧ k = t.col then some c else t.cells r k }
  | .clear => ⟨0, 0, fun _ _ => none⟩

/-- A row shows a text and nothing else. -/
def Shows (t : Terminal α) (row : Nat) (text : List α) : Prop := ∀ k, t.cells row k = text[k]?

end Terminal

/-- A page with its cells in reading order, and the place that is written next. -/
structure Page (α : Type*) (width height : Nat) where
  pos : Nat
  pos_lt : pos < height * width
  cells : Nat → Option α

namespace Page

variable {α : Type*} {width height : Nat}

theorem size_pos (p : Page α width height) : 0 < height * width := Nat.lt_of_le_of_lt (Nat.zero_le _) p.pos_lt

theorem place_lt {row col : Nat} (hrow : row < height) (hcol : col < width) :
    row * width + col < height * width := by
  have hle : (row + 1) * width ≤ height * width := Nat.mul_le_mul_right width hrow
  rw [Nat.succ_mul] at hle
  omega

/-- To a place, if it is on the page. -/
def move (p : Page α width height) (row col : Nat) : Page α width height :=
  if h : row < height ∧ col < width then { p with pos := row * width + col, pos_lt := place_lt h.1 h.2 } else p

/-- The next place gets `c`. -/
def put (p : Page α width height) (c : α) : Page α width height where
  pos := (p.pos + 1) % (height * width)
  pos_lt := Nat.mod_lt _ p.size_pos
  cells := fun n => if n = p.pos then some c else p.cells n

/-- To the start of the line. -/
def carriageReturn (p : Page α width height) : Page α width height :=
  p.move (p.pos / width) 0

/-- To the start of the next line. -/
def newline (p : Page α width height) : Page α width height :=
  p.move ((p.pos / width + 1) % height) 0

def clear (p : Page α width height) : Page α width height where
  pos := 0
  pos_lt := p.size_pos
  cells := fun _ => none

@[simp] theorem pos_put (p : Page α width height) (c : α) : (p.put c).pos = (p.pos + 1) % (height * width) := rfl
@[simp] theorem cells_put (p : Page α width height) (c : α) :
    (p.put c).cells = fun n => if n = p.pos then some c else p.cells n := rfl
@[simp] theorem pos_clear (p : Page α width height) : p.clear.pos = 0 := rfl
@[simp] theorem cells_clear (p : Page α width height) : p.clear.cells = fun _ => none := rfl

theorem pos_move (p : Page α width height) {row col : Nat} (hrow : row < height) (hcol : col < width) :
    (p.move row col).pos = row * width + col := by
  rw [move, dif_pos ⟨hrow, hcol⟩]

@[simp] theorem cells_move (p : Page α width height) (row col : Nat) : (p.move row col).cells = p.cells := by
  rw [move]
  split <;> rfl

@[simp] theorem cells_carriageReturn (p : Page α width height) : p.carriageReturn.cells = p.cells :=
  p.cells_move _ _

@[simp] theorem cells_newline (p : Page α width height) : p.newline.cells = p.cells :=
  p.cells_move _ _

theorem width_pos (p : Page α width height) : 0 < width :=
  Nat.pos_of_mul_pos_left p.size_pos

theorem pos_carriageReturn (p : Page α width height) : p.carriageReturn.pos = p.pos / width * width :=
  p.pos_move (Nat.div_lt_of_lt_mul (Nat.mul_comm height width ▸ p.pos_lt)) p.width_pos

theorem pos_newline (p : Page α width height) : p.newline.pos = (p.pos / width + 1) % height * width :=
  p.pos_move (Nat.mod_lt _ (Nat.pos_of_mul_pos_right p.size_pos)) p.width_pos

/-- A text that ends before the end of the page. -/
theorem puts (p : Page α width height) {text : List α} (hlen : p.pos + text.length < height * width) :
    (text.foldl put p).pos = p.pos + text.length ∧
      ∀ n, (text.foldl put p).cells n =
        if p.pos ≤ n ∧ n < p.pos + text.length then text[n - p.pos]? else p.cells n := by
  induction text generalizing p with
  | nil =>
    refine ⟨rfl, fun n => ?_⟩
    rw [if_neg (by simp), List.foldl_nil]
  | cons c text ih =>
    rw [List.length_cons] at hlen
    have hpos : (p.put c).pos = p.pos + 1 := Nat.mod_eq_of_lt (by omega)
    obtain ⟨hend, hcells⟩ := ih (p.put c) (by omega)
    rw [List.foldl_cons, List.length_cons]
    refine ⟨by omega, fun n => ?_⟩
    rw [hcells, hpos, cells_put]
    by_cases hn : n = p.pos
    · subst hn
      rw [if_neg (by omega), if_pos ⟨Nat.le_refl _, by omega⟩, Nat.sub_self]
      exact if_pos rfl
    · by_cases hin : p.pos + 1 ≤ n ∧ n < p.pos + 1 + text.length
      · have hindex : n - p.pos = n - (p.pos + 1) + 1 := by omega
        rw [if_pos hin, if_pos (by omega), hindex, List.getElem?_cons_succ]
      · rw [if_neg hin, if_neg (by omega)]
        exact if_neg hn

end Page
