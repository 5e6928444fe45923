-- SUMMARY: Decimal digits as characters: two-digit fields, the value of a digit string, and the text of an integer.
import Mathlib.Data.List.Basic
import Mathlib.Data.List.Induction
import Mathlib.Tactic.IntervalCases
import Mathlib.Tactic.Ring

/-!
# Decimal text

The characters `'0'` to `'9'`, the two-digit field that clocks and dates are
printed with, the number that a string of digits denotes, and the text of an
integer: how long it is, and when it is the end of another.
-/

namespace Decimal

/-- The character of a decimal digit. -/
def digit (d : Nat) : Char := Char.ofNat (48 + d)

/-- The digit that a character stands for. -/
def digitValue (c : Char) : Nat := c.toNat - 48

def isDigit (c : Char) : Bool := '0' ≤ c && c ≤ '9'

/-- A number below 100 as two digits, with a leading zero if need be. -/
def pad2 (n : Nat) : List Char := [digit (n / 10), digit (n % 10)]

/-- The number that a string of digits denotes, most significant digit first. -/
def ofDigits (cs : List Char) : Nat := cs.foldl (fun n c => 10 * n + digitValue c) 0

/-! ## Single digits -/

theorem toNat_digit {d : Nat} (h : d < 10) : (digit d).toNat = 48 + d := by
  interval_cases d <;> rfl

theorem digitValue_digit {d : Nat} (h : d < 10) : digitValue (digit d) = d := by
  rw [digitValue, toNat_digit h, Nat.add_sub_cancel_left]

theorem isDigit_digit {d : Nat} (h : d < 10) : isDigit (digit d) = true := by
  interval_cases d <;> rfl

theorem digit_inj {d e : Nat} (hd : d < 10) (he : e < 10) : digit d = digit e ↔ d = e := by
  refine ⟨fun h => ?_, congrArg digit⟩
  have hval := congrArg digitValue h
  rwa [digitValue_digit hd, digitValue_digit he] at hval

theorem toNat_of_isDigit {c : Char} (h : isDigit c = true) : 48 ≤ c.toNat ∧ c.toNat ≤ 57 := by
  simp only [isDigit, Bool.and_eq_true, decide_eq_true_eq, Char.le_def,
    UInt32.le_iff_toNat_le] at h
  exact h

theorem digitValue_lt {c : Char} (h : isDigit c = true) : digitValue c < 10 := by
  have hcode := toNat_of_isDigit h
  simp only [digitValue]
  omega

theorem digit_digitValue {c : Char} (h : isDigit c = true) : digit (digitValue c) = c := by
  rw [digit, digitValue, Nat.add_sub_cancel' (toNat_of_isDigit h).1, Char.ofNat_toNat]

/-! ## Two-digit fields -/

@[simp] theorem length_pad2 (n : Nat) : (pad2 n).length = 2 := rfl

theorem isDigit_of_mem_pad2 {n : Nat} (h : n < 100) : ∀ c ∈ pad2 n, isDigit c = true := by
  intro c hc
  simp only [pad2, List.mem_cons, List.not_mem_nil, or_false] at hc
  rcases hc with rfl | rfl
  · exact isDigit_digit (by omega)
  · exact isDigit_digit (by omega)

theorem pad2_ofDigits {c d : Char} (hc : isDigit c = true) (hd : isDigit d = true) :
    pad2 (10 * digitValue c + digitValue d) = [c, d] := by
  have hc' := digitValue_lt hc
  have hd' := digitValue_lt hd
  have htens : (10 * digitValue c + digitValue d) / 10 = digitValue c := by omega
  have hones : (10 * digitValue c + digitValue d) % 10 = digitValue d := by omega
  rw [pad2, htens, hones, digit_digitValue hc, digit_digitValue hd]

/-! ## Digit strings -/

/-- Appending digits shifts the number to the left. -/
theorem ofDigits_append (cs ds : List Char) :
    ofDigits (cs ++ ds) = ofDigits cs * 10 ^ ds.length + ofDigits ds := by
  have hfold : ∀ (ds : List Char) (n : Nat),
      ds.foldl (fun n c => 10 * n + digitValue c) n = n * 10 ^ ds.length + ofDigits ds := by
    intro ds
    induction ds with
    | nil => intro n; simp [ofDigits]
    | cons d ds ih =>
      intro n
      simp only [ofDigits, List.foldl_cons, List.length_cons]
      rw [ih, ih (10 * 0 + digitValue d), Nat.pow_succ]
      ring
  rw [ofDigits, List.foldl_append, ← ofDigits, hfold]

@[simp] theorem ofDigits_pad2 {n : Nat} (h : n < 100) : ofDigits (pad2 n) = n := by
  simp only [ofDigits, pad2, List.foldl_cons, List.foldl_nil]
  rw [digitValue_digit (by omega), digitValue_digit (by omega)]
  omega

/-! ## The text of a number -/

/-- An integer as `%d` prints it: no leading zeros, and a minus sign if it is negative. -/
def text (z : Int) : List Char :=
  if z < 0 then '-' :: Nat.toDigits 10 z.natAbs else Nat.toDigits 10 z.natAbs

theorem isDigit_of_mem_toDigits {n : Nat} {c : Char} (h : c ∈ Nat.toDigits 10 n) :
    isDigit c = true := by
  have hdigit := Nat.isDigit_of_mem_toDigits (by decide) (by decide) h
  simpa [isDigit, Char.isDigit, Char.le_def] using hdigit

theorem ofDigits_toDigits (n : Nat) : ofDigits (Nat.toDigits 10 n) = n :=
  Nat.ofDigitChars_ten_toDigits

theorem ofDigits_concat (cs : List Char) (c : Char) :
    ofDigits (cs ++ [c]) = 10 * ofDigits cs + digitValue c := by
  simp [ofDigits]

theorem ofDigits_lt {cs : List Char} (h : ∀ c ∈ cs, isDigit c = true) :
    ofDigits cs < 10 ^ cs.length := by
  induction cs using List.reverseRecOn with
  | nil => exact Nat.one_pos
  | append_singleton cs c ih =>
    obtain ⟨hcs, hc⟩ := List.forall_mem_append.mp h
    have hlow := ih hcs
    have hlast := digitValue_lt (hc c List.mem_cons_self)
    rw [ofDigits_concat, List.length_append, List.length_singleton, Nat.pow_succ]
    omega

/-- Strings of digits of one length are told apart by their numbers. -/
theorem eq_of_ofDigits_eq {cs ds : List Char} (hcs : ∀ c ∈ cs, isDigit c = true)
    (hds : ∀ c ∈ ds, isDigit c = true) (hlen : cs.length = ds.length)
    (h : ofDigits cs = ofDigits ds) : cs = ds := by
  induction cs using List.reverseRecOn generalizing ds with
  | nil => exact (List.length_eq_zero_iff.mp hlen.symm).symm
  | append_singleton cs c ih =>
    rcases List.eq_nil_or_concat' ds with rfl | ⟨ds, d, rfl⟩
    · simp at hlen
    · obtain ⟨hcs, hc⟩ := List.forall_mem_append.mp hcs
      obtain ⟨hds, hd⟩ := List.forall_mem_append.mp hds
      have hc := hc c List.mem_cons_self
      have hd := hd d List.mem_cons_self
      have hlast := digitValue_lt hc
      have hlast' := digitValue_lt hd
      rw [ofDigits_concat, ofDigits_concat] at h
      have hfront : cs = ds := ih hcs hds (by simpa using hlen) (by omega)
      rw [hfront, ← digit_digitValue hc, ← digit_digitValue hd,
        show digitValue c = digitValue d by omega]

/-- The last `k` digits denote the remainder modulo `10 ^ k`. -/
theorem ofDigits_drop {cs : List Char} (h : ∀ c ∈ cs, isDigit c = true) {k : Nat}
    (hk : k ≤ cs.length) : ofDigits (cs.drop (cs.length - k)) = ofDigits cs % 10 ^ k := by
  have hlen : (cs.drop (cs.length - k)).length = k := by
    rw [List.length_drop]
    omega
  have hlow := ofDigits_lt fun c hc => h c (List.mem_of_mem_drop (i := cs.length - k) hc)
  rw [hlen] at hlow
  have hvalue := ofDigits_append (cs.take (cs.length - k)) (cs.drop (cs.length - k))
  rw [List.take_append_drop, hlen] at hvalue
  rw [hvalue, Nat.mul_add_mod', Nat.mod_eq_of_lt hlow]

/-- The digits of one number end with those of another exactly if its last ones,
    as many, denote the other number. -/
theorem toDigits_suffix_iff (m n : Nat) :
    Nat.toDigits 10 m <:+ Nat.toDigits 10 n ↔ n % 10 ^ (Nat.toDigits 10 m).length = m := by
  have hdigits (k : Nat) : ∀ c ∈ Nat.toDigits 10 k, isDigit c = true :=
    fun _ => isDigit_of_mem_toDigits
  have hlow (k : Nat) : k < 10 ^ (Nat.toDigits 10 k).length := by
    have h := ofDigits_lt (hdigits k)
    rwa [ofDigits_toDigits] at h
  constructor
  · rintro ⟨front, h⟩
    have hvalue : n = ofDigits front * 10 ^ (Nat.toDigits 10 m).length + m := by
      rw [← ofDigits_toDigits n, ← h, ofDigits_append, ofDigits_toDigits]
    rw [hvalue, Nat.mul_add_mod', Nat.mod_eq_of_lt (hlow m)]
  · intro h
    have hlen : (Nat.toDigits 10 m).length ≤ (Nat.toDigits 10 n).length := by
      by_contra hlt
      have hpow := Nat.pow_le_pow_right (n := 10) (by decide) (not_le.mp hlt).le
      rw [Nat.mod_eq_of_lt ((hlow n).trans_le hpow)] at h
      rw [h] at hlt
      exact hlt le_rfl
    have hback : (Nat.toDigits 10 n).drop
        ((Nat.toDigits 10 n).length - (Nat.toDigits 10 m).length) = Nat.toDigits 10 m := by
      refine eq_of_ofDigits_eq (fun c hc => hdigits n c (List.mem_of_mem_drop hc)) (hdigits m)
        ?_ ?_
      · rw [List.length_drop]
        omega
      · rw [ofDigits_drop (hdigits n) hlen, ofDigits_toDigits, ofDigits_toDigits, h]
    rw [← hback]
    exact List.drop_suffix _ _

theorem text_of_nonneg {z : Int} (h : 0 ≤ z) : text z = Nat.toDigits 10 z.natAbs := by
  rw [text, if_neg (not_lt.mpr h)]

theorem text_of_neg {z : Int} (h : z < 0) : text z = '-' :: Nat.toDigits 10 z.natAbs := by
  rw [text, if_pos h]

theorem minus_not_mem_toDigits (n : Nat) : '-' ∉ Nat.toDigits 10 n := by
  intro h
  have hdigit := isDigit_of_mem_toDigits h
  revert hdigit
  decide

/-- The characters of a text have codes from `'-'` to `'9'`. -/
theorem toNat_of_mem_text {z : Int} {c : Char} (h : c ∈ text z) :
    45 ≤ c.toNat ∧ c.toNat ≤ 57 := by
  have hdigit (hc : c ∈ Nat.toDigits 10 z.natAbs) : 45 ≤ c.toNat ∧ c.toNat ≤ 57 := by
    have hcode := toNat_of_isDigit (isDigit_of_mem_toDigits hc)
    omega
  rcases lt_or_ge z 0 with hz | hz
  · rw [text_of_neg hz, List.mem_cons] at h
    rcases h with rfl | h
    · decide
    · exact hdigit h
  · rw [text_of_nonneg hz] at h
    exact hdigit h

theorem toDigits_inj {m n : Nat} : Nat.toDigits 10 m = Nat.toDigits 10 n ↔ m = n := by
  refine ⟨fun h => ?_, congrArg _⟩
  rw [← ofDigits_toDigits m, h, ofDigits_toDigits]

/-- Different integers have different texts. -/
theorem text_inj {w z : Int} : text w = text z ↔ w = z := by
  refine ⟨fun h => ?_, congrArg text⟩
  rcases lt_or_ge w 0 with hw | hw <;> rcases lt_or_ge z 0 with hz | hz
  · rw [text_of_neg hw, text_of_neg hz, List.cons_inj_right, toDigits_inj] at h
    omega
  · rw [text_of_neg hw, text_of_nonneg hz] at h
    exact absurd (h ▸ List.mem_cons_self) (minus_not_mem_toDigits z.natAbs)
  · rw [text_of_nonneg hw, text_of_neg hz] at h
    exact absurd (h ▸ List.mem_cons_self) (minus_not_mem_toDigits w.natAbs)
  · rw [text_of_nonneg hw, text_of_nonneg hz, toDigits_inj] at h
    omega

theorem text_suffix_toDigits_iff (w : Int) (n : Nat) :
    text w <:+ Nat.toDigits 10 n ↔ 0 ≤ w ∧ n % 10 ^ (text w).length = w.natAbs := by
  rcases lt_or_ge w 0 with hw | hw
  · rw [text_of_neg hw]
    refine iff_of_false (fun h => ?_) fun h => not_le.mpr hw h.1
    exact minus_not_mem_toDigits n (h.subset List.mem_cons_self)
  · rw [text_of_nonneg hw, toDigits_suffix_iff]
    exact (and_iff_right hw).symm

/-- The text of `z` ends with that of `w` exactly if they are the same, or if `w`
    has no minus sign and is what the last digits of `z` denote. -/
theorem text_suffix_iff (w z : Int) :
    text w <:+ text z ↔ w = z ∨ 0 ≤ w ∧ z.natAbs % 10 ^ (text w).length = w.natAbs := by
  rw [← text_suffix_toDigits_iff]
  rcases lt_or_ge z 0 with hz | hz
  · rw [text_of_neg hz, List.suffix_cons_iff, ← text_of_neg hz, text_inj]
  · rw [text_of_nonneg hz]
    refine (or_iff_right_of_imp ?_).symm
    rintro rfl
    simp [text_of_nonneg hz]

/-- The length of a text, for two digits or more. -/
theorem length_text_le_iff (z : Int) {k : Nat} (hk : 0 < k) :
    (text z).length ≤ k + 1 ↔ -10 ^ k < z ∧ z < 10 ^ (k + 1) := by
  have hcast (j : Nat) : ((10 ^ j : Nat) : Int) = 10 ^ j := by simp
  rcases lt_or_ge z 0 with hz | hz
  · rw [text_of_neg hz, List.length_cons, Nat.add_le_add_iff_right,
      Nat.length_toDigits_le_iff (by decide) hk, ← hcast, ← hcast]
    omega
  · rw [text_of_nonneg hz, Nat.length_toDigits_le_iff (by decide) (Nat.succ_pos k), ← hcast, ← hcast]
    omega

end Decimal
