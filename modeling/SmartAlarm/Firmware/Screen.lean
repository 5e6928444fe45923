-- SUMMARY: `uLCD_4DGL_main.cpp` and `uLCD_4DGL_Text.cpp`: the text cursor of the screen's driver and the commands it sends.
import SmartAlarm.Lib.Machine
import SmartAlarm.Lib.Terminal

/-!
# The driver of the screen

The driver keeps count of the column and the row that the next character goes to,
and moves the cursor of the screen where a line or the page is full. A command is
the list of its bytes on the serial line. The driver waits for the answer to every
command and then drops it, so answers are left out.
-/

/-- The bytes of a command. -/
abbrev Frame : Type := List UInt8

structure ULCD where
  current_col : UInt8
  current_row : UInt8
  current_color : Nat
  current_font : UInt8
  current_orientation : UInt8
  max_col : UInt8
  max_row : UInt8
  current_w : Nat
  current_h : Nat
  current_fx : Nat
  current_fy : Nat
  current_wf : Nat
  current_hf : Nat

namespace ULCD

/-! ## `uLCD_4DGL.h` -/

def CLS : UInt8 := 0xD7
def SETFONT : UInt8 := 0x7D
def MOVECURSOR : UInt8 := 0xE4
def PUTCHAR : UInt8 := 0xFE

def FONT_7X8 : UInt8 := 0x00
def FONT_5X7 : UInt8 := 0x04
def FONT_8X8 : UInt8 := 0x01
def FONT_8X12 : UInt8 := 0x02
def FONT_12X16 : UInt8 := 0x03

def SIZE_X : Nat := 128
def SIZE_Y : Nat := 128
def IS_PORTRAIT : UInt8 := 1
def WHITE : Nat := 0xFFFFFF

/-! ## The functions -/

/-- `writeCOMMAND` -/
def writeCOMMAND (command : List UInt8) : Frame := 0xFF :: command

/-- The six lines of `putc` and `locate` that move the cursor of the screen. -/
def moveCursor (d : ULCD) : Frame :=
  writeCOMMAND [MOVECURSOR, 0, d.current_row, 0, d.current_col]

/-- The width and the height of a font's characters, from the `switch` of `set_font`. -/
def fontSize (mode : UInt8) : Nat × Nat :=
  if mode = FONT_5X7 then (6, 8)
  else if mode = FONT_7X8 then (7, 8)
  else if mode = FONT_8X8 then (8, 8)
  else if mode = FONT_8X12 then (8, 12)
  else if mode = FONT_12X16 then (12, 16)
  else (8, 8)

def set_font (d : ULCD) (mode : UInt8) : ULCD × List Frame :=
  let size := if d.current_orientation = IS_PORTRAIT then (SIZE_X, SIZE_Y) else (SIZE_Y, SIZE_X)
  ({ d with
      current_font := mode
      current_w := size.1
      current_h := size.2
      current_fx := (fontSize mode).1
      current_fy := (fontSize mode).2
      max_col := UInt8.ofNat (size.1 / ((fontSize mode).1 * d.current_wf))
      max_row := UInt8.ofNat (size.2 / ((fontSize mode).2 * d.current_hf)) },
    [writeCOMMAND [SETFONT, 0, mode]])

def cls (d : ULCD) : ULCD × List Frame :=
  let (d, sent) := { d with
    current_row := 0
    current_col := 0
    current_hf := 1
    current_wf := 1 }.set_font FONT_7X8
  (d, writeCOMMAND [CLS] :: sent)

/-- The constructor, on memory that holds `d`. It clears the screen before it has set
    the orientation. -/
def init (d : ULCD) : ULCD × List Frame :=
  let (d, sent) := d.cls
  let (d, sent') := { d with
    current_col := 0
    current_row := 0
    current_color := WHITE
    current_orientation := IS_PORTRAIT
    current_hf := 1
    current_wf := 1 }.set_font FONT_7X8
  (d, sent ++ sent')

def locate (d : ULCD) (col row : UInt8) : ULCD × List Frame :=
  let d := { d with current_col := col, current_row := row }
  (d, [d.moveCursor])

/-- The first part of `putc`: what it does with the character. -/
def putCharacter (d : ULCD) (c : UInt8) : ULCD × List Frame :=
  if c < 0x20 then
    if c = 10 then
      let d := { d with current_col := 0, current_row := d.current_row + 1 }
      (d, [d.moveCursor])
    else if c = 13 then
      let d := { d with current_col := 0 }
      (d, [d.moveCursor])
    else if c = 12 then d.cls
    else (d, [])
  else ({ d with current_col := d.current_col + 1 }, [writeCOMMAND [PUTCHAR, 0, c]])

/-- The second part of `putc`: the end of the line. -/
def wrapColumn (d : ULCD) : ULCD × List Frame :=
  if d.current_col = d.max_col then
    let d := { d with current_col := 0, current_row := d.current_row + 1 }
    (d, [d.moveCursor])
  else (d, [])

/-- The third part of `putc`: the end of the page. -/
def wrapRow (d : ULCD) : ULCD × List Frame :=
  if d.current_row = d.max_row then
    let d := { d with current_row := 0 }
    (d, [d.moveCursor])
  else (d, [])

def putc (d : ULCD) (c : UInt8) : ULCD × List Frame :=
  let (d, character) := d.putCharacter c
  let (d, column) := d.wrapColumn
  let (d, row) := d.wrapRow
  (d, character ++ column ++ row)

/-! ## Sequences of calls -/

inductive Call where
  | locate (col row : UInt8)
  | putc (c : UInt8)
  | cls
deriving DecidableEq, Repr

/-- A driver under calls in any order, with the commands that it sends. -/
def calls : Machine ULCD Call Frame where
  step d
    | .locate col row => d.locate col row
    | .putc c         => d.putc c
    | .cls            => d.cls

/-- What `printf` does with its text: `_putc` is called for every character. -/
def print (text : List Char) : List Call := text.map fun c => .putc c.toUInt8

/-! ## The screen -/

/-- What the screen takes a command for. A font leaves the cursor where it is. -/
def decode : Frame → Option (TerminalOp UInt8)
  | [0xFF, 0xE4, 0, row, 0, col] => some (.move row.toNat col.toNat)
  | [0xFF, 0xFE, 0, c]           => some (.write c)
  | [0xFF, 0xD7]                 => some .clear
  | _                            => none

def receive (t : Terminal UInt8) (frame : Frame) : Terminal UInt8 :=
  match decode frame with
  | some op => t.apply op
  | none    => t

/-- What the screen shows after the commands `sent`. -/
def shown (t : Terminal UInt8) (sent : List Frame) : Terminal UInt8 := sent.foldl receive t

end ULCD
