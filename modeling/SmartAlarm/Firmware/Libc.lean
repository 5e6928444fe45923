-- SUMMARY: The C and C++ library functions that the firmware calls: string indexing, atoi, localtime, strftime, sprintf.
import SmartAlarm.Lib.Decimal
import SmartAlarm.Lib.Terminated

/-!
# Library functions

What the firmware uses of the C and C++ libraries. Strings are lists of
characters without their terminating zero. A `char` array is what its bytes are,
the zero and the bytes behind it included.
-/

namespace Libc

/-- `s[i]` of a C++ string: reading at the length gives the terminator. -/
def charAt (s : List Char) (i : Nat) : Char := s.getD i '\x00'

/-- `c + 1` stored back into a `char`. -/
def charSucc (c : Char) : Char := Char.ofNat (c.toNat + 1)

def isspace (c : Char) : Bool :=
  c = ' ' || c = '\t' || c = '\n' || c = '\x0b' || c = '\x0c' || c = '\r'

/-- The digits at the front of a text, as `atoi` reads them. -/
def atoiDigits (s : List Char) : Int := Decimal.ofDigits (s.takeWhile Decimal.isDigit)

def atoi (s : List Char) : Int :=
  match s.dropWhile isspace with
  | '-' :: rest => -atoiDigits rest
  | '+' :: rest => atoiDigits rest
  | rest        => atoiDigits rest

/-- The fields of `struct tm` that the firmware's formats print. -/
structure Tm where
  tm_hour : Nat
  tm_min : Nat
  tm_sec : Nat

/-- `localtime` on a target without time zones, which is UTC. -/
def localtime (t : Nat) : Tm where
  tm_hour := t / 3600 % 24
  tm_min := t / 60 % 60
  tm_sec := t % 60

@[simp] theorem localtime_hour (t : Nat) : (localtime t).tm_hour = t / 3600 % 24 := rfl
@[simp] theorem localtime_min (t : Nat) : (localtime t).tm_min = t / 60 % 60 := rfl
@[simp] theorem localtime_sec (t : Nat) : (localtime t).tm_sec = t % 60 := rfl

/-- `%I`: the hour on a twelve-hour clock, 01 to 12. -/
def hour12 (tm : Tm) : Nat := if tm.tm_hour % 12 = 0 then 12 else tm.tm_hour % 12

/-- `strftime` in the C locale, for the conversions in the firmware's formats. -/
def strftime : List Char → Tm → List Char
  | '%' :: 'I' :: fmt, tm => Decimal.pad2 (hour12 tm) ++ strftime fmt tm
  | '%' :: 'M' :: fmt, tm => Decimal.pad2 tm.tm_min ++ strftime fmt tm
  | '%' :: 'S' :: fmt, tm => Decimal.pad2 tm.tm_sec ++ strftime fmt tm
  | '%' :: 'p' :: fmt, tm => (if tm.tm_hour < 12 then ['A', 'M'] else ['P', 'M']) ++ strftime fmt tm
  | c :: fmt, tm          => c :: strftime fmt tm
  | [], _                 => []

/-- `char s[size]`. -/
abbrev Buffer (size : Nat) : Type := Fin size → UInt8

/-- `sprintf(s, "%d", n)` into an array that held `s`. If the text and its
    terminating zero do not fit, it writes past the end, which is `none`. -/
def sprintf {size : Nat} (s : Buffer size) (n : Int32) : Option (Buffer size) :=
  let text := (Decimal.text n.toInt).map Char.toUInt8
  if text.length < size then some (Terminated.store 0 s text) else none

/-- A number followed by something that is no digit is read up to there. -/
theorem atoi_digits_append {ds rest : List Char} (hne : ds ≠ [])
    (hds : ∀ c ∈ ds, Decimal.isDigit c = true)
    (hrest : ∀ c ∈ rest.head?, Decimal.isDigit c = false) :
    atoi (ds ++ rest) = Decimal.ofDigits ds := by
  obtain ⟨d, ds', rfl⟩ := List.exists_cons_of_ne_nil hne
  have hd : Decimal.isDigit d = true := hds d List.mem_cons_self
  have hspace : isspace d = false := by
    by_contra h
    simp only [Bool.not_eq_false, isspace, Bool.or_eq_true, decide_eq_true_eq] at h
    rcases h with ((((rfl | rfl) | rfl) | rfl) | rfl) | rfl <;> exact absurd hd (by decide)
  have htake : ((d :: ds') ++ rest).takeWhile Decimal.isDigit = d :: ds' := by
    rw [List.takeWhile_append_of_pos hds]
    cases rest with
    | nil => simp
    | cons c rest => simp [hrest c (by simp)]
  have hdrop : ((d :: ds') ++ rest).dropWhile isspace = (d :: ds') ++ rest := by
    simp [hspace]
  rw [atoi, hdrop]
  split
  · rename_i heq
    obtain rfl : d = '-' := by simpa using congrArg List.head? heq
    exact absurd hd (by decide)
  · rename_i heq
    obtain rfl : d = '+' := by simpa using congrArg List.head? heq
    exact absurd hd (by decide)
  · rw [atoiDigits, htake]

end Libc
