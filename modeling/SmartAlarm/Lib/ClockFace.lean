-- SUMMARY: Twelve-hour clock readings: seconds of the day, their text, and the round trips between them.
import SmartAlarm.Lib.Decimal

/-!
# Twelve-hour clock faces

A reading of a twelve-hour clock to the second. The hour counts from 12 over 1
to 11, twice a day. A face is the same thing as a second of the day, and the
same thing as its eleven characters `hh:mm:ss AM`.
-/

@[ext]
structure ClockFace where
  hour : Nat
  minute : Nat
  second : Nat
  pm : Bool
  hour_pos : 1 ≤ hour
  hour_le : hour ≤ 12
  minute_lt : minute < 60
  second_lt : second < 60
deriving DecidableEq, Repr

namespace ClockFace

/-! ## Faces and seconds of the day -/

/-- The face at a number of seconds after some midnight. -/
def ofSecond (t : Nat) : ClockFace where
  hour := (t / 3600 % 24 + 11) % 12 + 1
  minute := t / 60 % 60
  second := t % 60
  pm := 12 ≤ t / 3600 % 24
  hour_pos := by omega
  hour_le := by omega
  minute_lt := by omega
  second_lt := by omega

/-- The minute of the day that a face shows: 12 AM is hour 0, 12 PM is hour 12. -/
def toMinute (f : ClockFace) : Nat :=
  (f.hour % 12 + if f.pm then 12 else 0) * 60 + f.minute

def toSecond (f : ClockFace) : Nat := f.toMinute * 60 + f.second

theorem toMinute_ofSecond (t : Nat) : (ofSecond t).toMinute = t / 60 % 1440 := by
  by_cases h : 12 ≤ t / 3600 % 24
  · simp only [toMinute, ofSecond, h, decide_true, if_true]
    omega
  · simp only [toMinute, ofSecond, h, decide_false, Bool.false_eq_true, if_false]
    omega

theorem toSecond_ofSecond (t : Nat) : (ofSecond t).toSecond = t % 86400 := by
  rw [toSecond, toMinute_ofSecond]
  simp only [ofSecond]
  omega

theorem ofSecond_toSecond (f : ClockFace) : ofSecond f.toSecond = f := by
  have := f.hour_pos
  have := f.hour_le
  have := f.minute_lt
  have := f.second_lt
  cases hpm : f.pm <;>
    · ext <;>
        simp only [ofSecond, toSecond, toMinute, hpm, if_true, if_false, Bool.false_eq_true,
          decide_eq_true_eq, decide_eq_false_iff_not] <;>
        omega

/-- Two times show the same face exactly when they are whole days apart. -/
theorem ofSecond_eq_iff {t u : Nat} : ofSecond t = ofSecond u ↔ t % 86400 = u % 86400 := by
  rw [← toSecond_ofSecond, ← toSecond_ofSecond]
  refine ⟨congrArg toSecond, fun h => ?_⟩
  rw [← ofSecond_toSecond (ofSecond t), h, ofSecond_toSecond]

/-! ## Faces and their text -/

/-- The face as text, `hh:mm:ss AM` or `hh:mm:ss PM`. -/
def text (f : ClockFace) : List Char :=
  Decimal.pad2 f.hour ++ ':' :: Decimal.pad2 f.minute ++ ':' :: Decimal.pad2 f.second ++
    [' ', if f.pm then 'P' else 'A', 'M']

theorem length_text (f : ClockFace) : f.text.length = 11 := rfl

/-- A face is printed in ASCII, without control characters. -/
theorem toNat_of_mem_text {f : ClockFace} {c : Char} (hc : c ∈ f.text) : 32 ≤ c.toNat ∧ c.toNat < 128 := by
  have hdigit (n : Nat) (hn : n < 100) (hc : c ∈ Decimal.pad2 n) : 32 ≤ c.toNat ∧ c.toNat < 128 := by
    have hcode := Decimal.toNat_of_isDigit (Decimal.isDigit_of_mem_pad2 hn c hc)
    omega
  have hhour := f.hour_le
  have hminute := f.minute_lt
  have hsecond := f.second_lt
  simp only [text, List.mem_append, List.mem_cons, List.not_mem_nil, or_false] at hc
  rcases hc with ((hc | rfl | hc) | rfl | hc) | rfl | rfl | rfl
  · exact hdigit f.hour (by omega) hc
  · decide
  · exact hdigit f.minute (by omega) hc
  · decide
  · exact hdigit f.second (by omega) hc
  · decide
  · cases f.pm <;> decide
  · decide

/-- The value of a two-character field, if both characters are digits and the
    number is below `bound`. -/
def parseField (bound : Nat) (c d : Char) : Option { n : Nat // n < bound } :=
  if Decimal.isDigit c && Decimal.isDigit d then
    let n := 10 * Decimal.digitValue c + Decimal.digitValue d
    if h : n < bound then some ⟨n, h⟩ else none
  else none

/-- The face that a text shows, if it is the text of one. -/
def parse : List Char → Option ClockFace
  | [h₁, h₂, ':', m₁, m₂, ':', s₁, s₂, ' ', p, 'M'] => do
    let hour ← parseField 13 h₁ h₂
    let minute ← parseField 60 m₁ m₂
    let second ← parseField 60 s₁ s₂
    if hpos : 1 ≤ hour.val then
      if p = 'A' ∨ p = 'P' then
        some ⟨hour, minute, second, p = 'P', hpos, Nat.le_of_lt_succ hour.2, minute.2, second.2⟩
      else none
    else none
  | _ => none

theorem parseField_pad2 {n bound : Nat} (h : n < bound) (h100 : n < 100) :
    parseField bound (Decimal.digit (n / 10)) (Decimal.digit (n % 10)) = some ⟨n, h⟩ := by
  have hval : 10 * (n / 10) + n % 10 = n := by omega
  simp [parseField, Decimal.isDigit_digit (show n / 10 < 10 by omega),
    Decimal.isDigit_digit (show n % 10 < 10 by omega),
    Decimal.digitValue_digit (show n / 10 < 10 by omega),
    Decimal.digitValue_digit (show n % 10 < 10 by omega), hval, h]

theorem pad2_of_parseField {bound : Nat} {c d : Char} {n : { n : Nat // n < bound }}
    (h : parseField bound c d = some n) : Decimal.pad2 n.val = [c, d] := by
  simp only [parseField] at h
  split at h
  · rename_i hdig
    rw [Bool.and_eq_true] at hdig
    split at h
    · cases h
      exact Decimal.pad2_ofDigits hdig.1 hdig.2
    · cases h
  · cases h

/-- Reading back the text of a face gives the face. -/
theorem parse_text (f : ClockFace) : parse f.text = some f := by
  obtain ⟨hour, minute, second, pm, hpos, hle, hmin, hsec⟩ := f
  simp only [text, Decimal.pad2, List.cons_append, List.nil_append, parse]
  rw [parseField_pad2 (show hour < 13 by omega) (by omega), parseField_pad2 hmin (by omega),
    parseField_pad2 hsec (by omega)]
  cases pm <;> simp [hpos]

/-- Whatever is accepted is the text of the face it is read as. -/
theorem text_of_parse {s : List Char} {f : ClockFace} (h : parse s = some f) : f.text = s := by
  unfold parse at h
  split at h
  · rename_i h₁ h₂ m₁ m₂ s₁ s₂ p
    cases hhour : parseField 13 h₁ h₂ with
    | none => simp [hhour] at h
    | some hour =>
    cases hmin : parseField 60 m₁ m₂ with
    | none => simp [hhour, hmin] at h
    | some minute =>
    cases hsec : parseField 60 s₁ s₂ with
    | none => simp [hhour, hmin, hsec] at h
    | some second =>
    simp only [hhour, hmin, hsec, Option.bind_eq_bind, Option.bind_some] at h
    split at h
    · split at h
      · rename_i _ hp
        cases h
        simp only [text, pad2_of_parseField hhour, pad2_of_parseField hmin,
          pad2_of_parseField hsec]
        rcases hp with rfl | rfl <;> rfl
      · cases h
    · cases h
  · cases h

theorem text_inj {f g : ClockFace} : f.text = g.text ↔ f = g := by
  refine ⟨fun h => ?_, congrArg text⟩
  rw [← Option.some.injEq, ← parse_text f, h, parse_text]

/-- The minute of the day that a text shows, if it is the text of a face. -/
def minuteShown (s : List Char) : Option Nat := (parse s).map toMinute

theorem minuteShown_eq_some_iff {s : List Char} {n : Nat} :
    minuteShown s = some n ↔ ∃ f : ClockFace, f.text = s ∧ f.toMinute = n := by
  rw [minuteShown, Option.map_eq_some_iff]
  constructor
  · rintro ⟨f, hparse, hminute⟩
    exact ⟨f, text_of_parse hparse, hminute⟩
  · rintro ⟨f, rfl, hminute⟩
    exact ⟨f, parse_text f, hminute⟩

/-- Two times have the same text exactly when they are whole days apart. -/
theorem text_ofSecond_eq_iff {t u : Nat} :
    (ofSecond t).text = (ofSecond u).text ↔ t % 86400 = u % 86400 := by
  rw [text_inj, ofSecond_eq_iff]

end ClockFace
