-- SUMMARY: `checkSuffix` of `main.cpp`: two numbers printed into arrays of ten bytes, which are compared from their ends.
import SmartAlarm.Firmware.Libc

/-!
# The suffix test

`checkSuffix` prints both numbers into local arrays and walks back from the ends
of the arrays, whose length is `sizeof`, until it meets two different bytes. What
it sends to the serial port is left out. `main` mentions it in a comment only.
-/

namespace Firmware

open Libc

/-- `for (int i = 0; i < n2; i++)` with `k` passes to go, so that `i` is `n2 - k`. -/
def suffixLoop {n1 n2 : Nat} (s1 : Buffer n1) (s2 : Buffer n2) (hn : n2 ≤ n1) :
    (k : Nat) → k ≤ n2 → Bool
  | 0, _     => true
  | k + 1, h =>
    let i := n2 - (k + 1)
    if s1 ⟨n1 - i - 1, by omega⟩ ≠ s2 ⟨n2 - i - 1, by omega⟩ then false
    else suffixLoop s1 s2 hn k (by omega)

/-- The part of `checkSuffix` behind the two calls of `sprintf`. -/
def compareEnds {n1 n2 : Nat} (s1 : Buffer n1) (s2 : Buffer n2) : Bool :=
  if h : n1 < n2 then false
  else suffixLoop s1 s2 (Nat.not_lt.mp h) n2 (Nat.le_refl n2)

/-- `checkSuffix`, called when the bytes of its two arrays are `s1` and `s2`.
    `none` is a call of `sprintf` that writes past its array. -/
def checkSuffix (A B : Int32) (s1 s2 : Buffer 10) : Option Bool := do
  let s1 ← sprintf s1 A
  let s2 ← sprintf s2 B
  return compareEnds s1 s2

end Firmware
