import GraphExpr.Decimal.Text
import GraphExpr.Literal

/-! # Numerals read back

The digits that are written for a decimal are read as the same decimal. An integer that is
written with a point keeps its value, and gets the scale 1 wherever its coefficient has room for
one more digit.
-/

namespace GraphExpr.Decimal

theorem digitValue_le {c : Char} (h : c.isDigit = true) : digitValue c ≤ 9 := by
  obtain ⟨_, h⟩ := Char.isDigit_iff_toNat.mp h
  have h9 : '9'.toNat = 57 := rfl
  have h0 : '0'.toNat = 48 := rfl
  unfold digitValue
  omega

theorem ofDigits_eq_ofDigitChars (acc : Nat) (digits : List Char) :
    ofDigits acc digits = Nat.ofDigitChars 10 digits acc := by
  simp only [ofDigits, Nat.ofDigitChars_eq_foldl, digitValue, Nat.mul_comm]

theorem ofDigits_append (acc : Nat) (xs ys : List Char) :
    ofDigits acc (xs ++ ys) = ofDigits (ofDigits acc xs) ys := by
  simp [ofDigits]

theorem le_ofDigits (acc : Nat) (digits : List Char) : acc ≤ ofDigits acc digits := by
  induction digits generalizing acc with
  | nil => exact Nat.le_refl _
  | cons c rest ih =>
    have h : acc ≤ acc * 10 + digitValue c := by omega
    exact Nat.le_trans h (ih _)

@[simp] theorem ofDigits_toDigits (n : Nat) : ofDigits 0 (Nat.toDigits 10 n) = n := by
  rw [ofDigits_eq_ofDigitChars, Nat.ofDigitChars_ten_toDigits]

theorem ofDigits_zeros (n : Nat) (digits : List Char) :
    ofDigits 0 (List.replicate n '0' ++ digits) = ofDigits 0 digits := by
  rw [ofDigits_append, ofDigits_eq_ofDigitChars 0 (List.replicate n '0'),
    Nat.ofDigitChars_replicate_zero, Nat.mul_zero]

theorem readFraction?_of_fits (negative : Bool) {coefficient scale : Nat} {digits : List Char}
    (hs : scale + digits.length ≤ 28) (hc : ofDigits coefficient digits < limit) :
    readFraction? negative coefficient scale digits =
      signed? negative (ofDigits coefficient digits) (scale + digits.length) := by
  induction digits generalizing coefficient scale with
  | nil => rfl
  | cons c rest ih =>
    have hlen : scale + 1 + rest.length ≤ 28 := by simp at hs; omega
    have hnext : coefficient * 10 + digitValue c < limit :=
      Nat.lt_of_le_of_lt (le_ofDigits _ rest) hc
    rw [readFraction?, if_pos ⟨by omega, hnext⟩, ih hlen hc]
    congr 1
    simp only [List.length_cons]
    omega

theorem signed?_natAbs (d : Decimal) :
    signed? (decide (d.numerator < 0)) d.numerator.natAbs d.scale = some d := by
  have hn : (if decide (d.numerator < 0) = true then -(d.numerator.natAbs : Int)
      else d.numerator.natAbs) = d.numerator := by
    by_cases h : d.numerator < 0
    · simp only [h, decide_true, if_true]; omega
    · simp only [h, decide_false, Bool.false_eq_true, if_false]; omega
  simp only [signed?, hn, ofParts?]
  rw [dif_pos ⟨d.numerator_lt, d.scale_le⟩]

section Padded

variable (d : Decimal)

theorem scale_lt_length_paddedDigits : d.scale < d.paddedDigits.length := by
  simp only [paddedDigits, List.length_append, List.length_replicate]
  omega

theorem isDigit_of_mem_paddedDigits {c : Char} (h : c ∈ d.paddedDigits) : c.isDigit := by
  rcases List.mem_append.mp h with h | h
  · rw [List.eq_of_mem_replicate h]; decide
  · exact Nat.isDigit_of_mem_toDigits (by decide) (by decide) h

theorem ofDigits_paddedDigits : ofDigits 0 d.paddedDigits = d.numerator.natAbs := by
  rw [paddedDigits, ofDigits_zeros, ofDigits_toDigits]

def wholeDigits : List Char :=
  d.paddedDigits.take (d.paddedDigits.length - d.scale)

def fractionDigits : List Char :=
  d.paddedDigits.drop (d.paddedDigits.length - d.scale)

theorem wholeDigits_append_fractionDigits : d.wholeDigits ++ d.fractionDigits = d.paddedDigits :=
  List.take_append_drop _ _

theorem length_fractionDigits : d.fractionDigits.length = d.scale := by
  have := d.scale_lt_length_paddedDigits
  simp only [fractionDigits, List.length_drop]
  omega

theorem wholeDigits_ne_nil : d.wholeDigits ≠ [] := by
  have := d.scale_lt_length_paddedDigits
  intro h
  have hl := congrArg List.length h
  simp only [wholeDigits, List.length_take, List.length_nil] at hl
  omega

theorem isDigit_of_mem_wholeDigits {c : Char} (h : c ∈ d.wholeDigits) : c.isDigit :=
  d.isDigit_of_mem_paddedDigits (List.mem_of_mem_take h)

theorem isDigit_of_mem_fractionDigits {c : Char} (h : c ∈ d.fractionDigits) : c.isDigit :=
  d.isDigit_of_mem_paddedDigits (List.mem_of_mem_drop h)

theorem fractionDigits_eq_nil_iff : d.fractionDigits = [] ↔ d.scale = 0 := by
  rw [← List.length_eq_zero_iff, length_fractionDigits]

theorem toList_toText : d.toText.toList =
    (if d.numerator < 0 then ['-'] else []) ++ d.wholeDigits ++
      (if d.scale = 0 then [] else '.' :: d.fractionDigits) := by
  simp only [toText, String.toList_ofList, wholeDigits, fractionDigits]

theorem ofDigits_wholeDigits_lt : ofDigits 0 d.wholeDigits < limit := by
  have h : ofDigits 0 d.wholeDigits ≤ d.numerator.natAbs := by
    rw [← d.ofDigits_paddedDigits, ← d.wholeDigits_append_fractionDigits, ofDigits_append]
    exact le_ofDigits _ _
  exact Nat.lt_of_le_of_lt h d.numerator_lt

/-- The digits that are written for a decimal are read as the decimal. -/
theorem ofNumeral?_digits :
    ofNumeral? (decide (d.numerator < 0)) d.wholeDigits d.fractionDigits = some d := by
  have hn : ofDigits (ofDigits 0 d.wholeDigits) d.fractionDigits = d.numerator.natAbs := by
    rw [← ofDigits_append, wholeDigits_append_fractionDigits, ofDigits_paddedDigits]
  rw [ofNumeral?, if_pos d.ofDigits_wholeDigits_lt,
    readFraction?_of_fits _ (by rw [length_fractionDigits, Nat.zero_add]; exact d.scale_le)
      (by rw [hn]; exact d.numerator_lt),
    hn, length_fractionDigits, Nat.zero_add, signed?_natAbs]

theorem ofDigits_wholeDigits_of_integral (h : d.scale = 0) :
    ofDigits 0 d.wholeDigits = d.numerator.natAbs := by
  rw [← d.ofDigits_paddedDigits, ← d.wholeDigits_append_fractionDigits,
    d.fractionDigits_eq_nil_iff.mpr h, List.append_nil]

end Padded

/-- An integral decimal with one place behind the point, where its coefficient has room. -/
def pointed (d : Decimal) : Decimal :=
  if h : d.scale = 0 ∧ (d.numerator * 10).natAbs < limit then ⟨d.numerator * 10, 1, h.2, by decide⟩
  else d

theorem pointed_of_scale_ne_zero {d : Decimal} (h : d.scale ≠ 0) : d.pointed = d := by
  simp [pointed, h]

theorem pointed_same (d : Decimal) : d.same d.pointed = true := by
  unfold pointed
  split
  next h => simp [same, order, power, h.1]
  next => simp [same, order]

theorem ofNumeral?_zero_fraction {d : Decimal} (hs : d.scale = 0) :
    ofNumeral? (decide (d.numerator < 0)) d.wholeDigits ['0'] = some d.pointed := by
  have hw := d.ofDigits_wholeDigits_of_integral hs
  have h0 : digitValue '0' = 0 := rfl
  have hten : (d.numerator * 10).natAbs = d.numerator.natAbs * 10 := by omega
  rw [ofNumeral?, if_pos d.ofDigits_wholeDigits_lt, hw, readFraction?]
  by_cases h : d.numerator.natAbs * 10 < limit
  · have hd : d.pointed = ⟨d.numerator * 10, 1, by omega, by decide⟩ := by
      simp [pointed, hs, hten, h]
    have hneg : (d.numerator < 0) = (d.pointed.numerator < 0) := by
      simp only [hd, eq_iff_iff]; omega
    have habs : d.numerator.natAbs * 10 = d.pointed.numerator.natAbs := by
      simp only [hd, hten]
    have hscale : 0 + 1 = d.pointed.scale := by simp only [hd]
    rw [h0, Nat.add_zero, if_pos ⟨by decide, h⟩, readFraction?]
    simp only [hneg, habs, hscale, signed?_natAbs]
  · have hd : d.pointed = d := by simp [pointed, hs, hten, h]
    rw [h0, Nat.add_zero, if_neg (fun hc => h hc.2), rounded?, if_pos (by decide), hd, ← hs,
      signed?_natAbs]

end GraphExpr.Decimal
