-- SUMMARY: `ledSequence.cpp`: the random light pattern, its repetition, and switching the lights off.
import SmartAlarm.Firmware.Libc
import SmartAlarm.Lib.Machine
import Mathlib.Data.Rat.Defs

/-!
# The light game

`ledSelect` draws four random letters, lights one lamp for each and returns the
letters; `ledRepeatSequence` lights the lamps of a given pattern again. Both
count with the global `ledCount` and fill or read four places. `rand` is the
stream of results of the calls to come.
-/

namespace LedSequence

open Libc

inductive Led where
  | myled1
  | myled2
  | myled3
  | myled4
deriving DecidableEq, Repr

/-- What a call does to the lamps: a pin write or a pause in seconds. -/
inductive LedEvent where
  | write (led : Led) (on : Bool)
  | wait (s : ℚ)
deriving DecidableEq, Repr

/-- The globals of `ledSequence.cpp` and the output pins. -/
structure Game where
  leds : Nat
  ledCount : Nat
  ledPattern : List Char
  lit : Led → Bool

/-- The globals at power-on. -/
def Game.init : Game where
  leds := 0
  ledCount := 0
  ledPattern := List.replicate 5 '\x00'
  lit := fun _ => false

/-- `myled = 1; wait(0.4); myled = 0;` -/
def blink (led : Led) : List LedEvent :=
  [.write led true, .wait (4 / 10), .write led false]

def Game.switchOff (g : Game) (led : Led) : Game :=
  { g with lit := fun l => if l = led then false else g.lit l }

/-- One branch of the ladder in `ledSelect`: light `led`, store `letter`. -/
def Game.choose (g : Game) (led : Led) (letter : Char) : Game × List LedEvent :=
  ({ g.switchOff led with ledPattern := g.ledPattern.set g.ledCount letter }, blink led)

/-- One pass of the loop in `ledSelect`. The last branch lights `myled3`, like
    the one before it. -/
def selectPass (r : Nat) (g : Game) : Game × List LedEvent :=
  let g := { g with leds := r % 4 }
  let chosen :=
    if g.leds = 0 then g.choose .myled1 'a'
    else if g.leds = 1 then g.choose .myled2 'b'
    else if g.leds = 2 then g.choose .myled3 'c'
    else if g.leds = 3 then g.choose .myled3 'd'
    else (g, [])
  ({ chosen.1 with ledCount := chosen.1.ledCount + 1 }, chosen.2)

/-- `while (ledCount < 4)` in `ledSelect`, for `n` passes at most. -/
def selectLoop (rand : Nat → Nat) : Nat → Game → Game × List LedEvent
  | 0, g     => (g, [])
  | n + 1, g =>
    if g.ledCount < 4 then
      let (g', now) := selectPass (rand 0) g
      let (g'', later) := selectLoop (fun k => rand (k + 1)) n g'
      (g'', now ++ later)
    else (g, [])

/-- A character buffer read as a C string. -/
def cString (buffer : List Char) : List Char := buffer.takeWhile (· ≠ '\x00')

structure Selected where
  pattern : List Char
  game : Game
  events : List LedEvent

/-- `ledSelect`. The loop counts `ledCount` up to 4, so `4 - ledCount` passes end it. -/
def ledSelect (rand : Nat → Nat) (g : Game) : Selected :=
  let (g', events) := selectLoop rand (4 - g.ledCount) g
  ⟨cString g'.ledPattern, { g' with ledCount := 0 }, events⟩

/-- One pass of the loop in `ledRepeatSequence`. -/
def repeatPass (pattern : List Char) (g : Game) : Game × List LedEvent :=
  let shown :=
    if charAt pattern g.ledCount = 'a' then (g.switchOff .myled1, blink .myled1)
    else if charAt pattern g.ledCount = 'b' then (g.switchOff .myled2, blink .myled2)
    else if charAt pattern g.ledCount = 'c' then (g.switchOff .myled3, blink .myled3)
    else if charAt pattern g.ledCount = 'd' then (g.switchOff .myled4, blink .myled4)
    else (g, [])
  ({ shown.1 with ledCount := shown.1.ledCount + 1 }, shown.2)

/-- `while (ledCount < 4)` in `ledRepeatSequence`, for `n` passes at most. -/
def repeatLoop (pattern : List Char) : Nat → Game → Game × List LedEvent
  | 0, g     => (g, [])
  | n + 1, g =>
    if g.ledCount < 4 then
      let (g', now) := repeatPass pattern g
      let (g'', later) := repeatLoop pattern n g'
      (g'', now ++ later)
    else (g, [])

def ledRepeatSequence (pattern : List Char) (g : Game) : Game × List LedEvent :=
  let (g', events) := repeatLoop pattern (4 - g.ledCount) g
  ({ g' with ledCount := 0 }, events)

def turnOffColor (g : Game) : Game × List LedEvent :=
  if g.lit .myled1 || g.lit .myled2 || g.lit .myled3 || g.lit .myled4 then
    ({ g with lit := fun _ => false },
      [.write .myled1 false, .write .myled2 false, .write .myled3 false, .write .myled4 false])
  else (g, [])

/-! ## Sequences of calls -/

/-- A call of the light game. `rand` is the stream of random numbers of the call. -/
inductive GameCall where
  | ledSelect (rand : Nat → Nat)
  | ledRepeatSequence (pattern : List Char)
  | turnOffColor

/-- The light game under calls in any order. -/
def lightGame : Machine Game GameCall LedEvent where
  step g
    | .ledSelect rand => ((ledSelect rand g).game, (ledSelect rand g).events)
    | .ledRepeatSequence pattern => ledRepeatSequence pattern g
    | .turnOffColor => turnOffColor g

end LedSequence
