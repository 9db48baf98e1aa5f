import Mathlib.Algebra.Order.Field.Basic
import Mathlib.Algebra.Order.Ring.Cast
import Mathlib.Algebra.Order.Ring.Rat
import Mathlib.Tactic.FieldSimp
import Mathlib.Tactic.IntervalCases
import Mathlib.Tactic.Linarith
import Mathlib.Tactic.Positivity
import GraphExpr.Value.Order

/-! # What values are compared by

A value that can be compared has a measure: a number with its units, a text, a truth value or a day.
Integers and magnitudes are measured by the rational numbers that they denote, and partial dates by
their first day. Values are compared as their measures are, so the laws of the order need to be
known for measures only.
-/

namespace GraphExpr

/-! ### Numbers -/

namespace Decimal

def value (d : Decimal) : ℚ :=
  d.numerator / 10 ^ d.scale

theorem cast_power (n : ℕ) : ((power n : ℕ) : ℚ) = 10 ^ n := by
  simp [power]

/-- Decimals are ordered as the numbers that they denote. -/
theorem order_eq_compare (a b : Decimal) : a.order b = compare a.value b.value := by
  have hleft : ((a.numerator * power b.scale : ℤ) : ℚ) =
      a.value * (10 ^ a.scale * 10 ^ b.scale) := by
    push_cast [cast_power]
    unfold value
    field_simp
  have hright : ((b.numerator * power a.scale : ℤ) : ℚ) =
      b.value * (10 ^ a.scale * 10 ^ b.scale) := by
    push_cast [cast_power]
    unfold value
    field_simp
  have hpos : (0 : ℚ) < 10 ^ a.scale * 10 ^ b.scale := by positivity
  unfold order
  rw [← cmp_eq_compare, ← cmp_eq_compare, ← Int.cast_strictMono (R := ℚ) |>.cmp_map_eq, hleft,
    hright, cmp_mul_pos_right hpos]

theorem abs_value_lt (d : Decimal) : |d.value| < limit := by
  have hnumerator : |(d.numerator : ℚ)| < limit := by
    have h := d.numerator_lt
    rw [← Nat.cast_lt (α := ℚ), Nat.cast_natAbs, Int.cast_abs] at h
    exact h
  have hscale : (1 : ℚ) ≤ 10 ^ d.scale := one_le_pow₀ (by norm_num)
  unfold value
  rw [abs_div, abs_of_pos (by positivity : (0 : ℚ) < 10 ^ d.scale)]
  exact (div_le_self (abs_nonneg _) hscale).trans_lt hnumerator

theorem ofInt?_eq_some {n : ℤ} {d : Decimal} (h : ofInt? n = some d) : d.value = n := by
  unfold ofInt? ofParts? at h
  split at h
  · cases h
    simp [value]
  · cases h

theorem ofInt?_eq_none {n : ℤ} (h : ofInt? n = none) : (limit : ℚ) ≤ |(n : ℚ)| := by
  unfold ofInt? ofParts? at h
  split at h
  · cases h
  next hfar =>
    have hlimit : limit ≤ n.natAbs := by
      by_contra hless
      exact hfar ⟨not_le.mp hless, Nat.zero_le _⟩
    rw [← Nat.cast_le (α := ℚ), Nat.cast_natAbs, Int.cast_abs] at hlimit
    exact hlimit

/-- An integer and a decimal are ordered as the numbers that they denote, also where the integer is
too large for a decimal. -/
theorem orderInt_eq_compare (n : ℤ) (d : Decimal) : orderInt n d = compare (n : ℚ) d.value := by
  unfold orderInt
  split
  next converted hsome => rw [order_eq_compare, ofInt?_eq_some hsome]
  next hnone =>
    have hfar := (abs_value_lt d).trans_le (ofInt?_eq_none hnone)
    split
    next hneg =>
      rw [abs_of_neg (Int.cast_lt_zero.mpr hneg)] at hfar
      rw [eq_comm, compare_lt_iff_lt]
      linarith [neg_abs_le d.value]
    next hpos =>
      rw [abs_of_nonneg (Int.cast_nonneg (not_lt.mp hpos))] at hfar
      rw [eq_comm, compare_gt_iff_gt]
      exact (le_abs_self _).trans_lt hfar

example : orderInt (Decimal.limit : ℤ) ⟨Decimal.limit - 1, 0, by decide, by decide⟩ = .gt := by
  decide

end Decimal

/-! ### Measures -/

/-- What a value is compared by. -/
inductive Measure where
  | amount (units : Option String) (number : ℚ)
  | text (text : String)
  | markdown (text : String)
  | truth (truth : Bool)
  | day (day : Date)

instance : Std.TransCmp Date.order :=
  inferInstanceAs <| Std.TransCmp <| compareLex (compareOn Date.year)
    (compareLex (compareOn Date.month) (compareOn Date.day))

/-- A partial date whose month, if it has one, is a month and whose year is in the calendar. -/
structure PartialDate.InCalendar (d : PartialDate) : Prop where
  month : ∀ m ∈ d.month, 1 ≤ m ∧ m ≤ 12
  year : Calendar.firstYear ≤ d.year ∧ d.year ≤ Calendar.lastYear

namespace Measure

def order? : Measure → Measure → Option Ordering
  | amount units a, amount units' b => if units = units' then some (compare a b) else none
  | text a, text b => some (compare a b)
  | markdown a, markdown b => some (compare a b)
  | truth a, truth b => some (compare a b)
  | day a, day b => some (a.order b)
  | _, _ => none

variable {a b c : Measure} {o o' : Ordering}

theorem order?_swap (a b : Measure) : b.order? a = (a.order? b).map Ordering.swap := by
  cases a <;> cases b <;> simp only [order?, Option.map_some, Option.map_none, Option.some.injEq]
  case amount.amount units x units' y =>
    by_cases h : units = units'
    · subst h
      simpa using Std.OrientedCmp.eq_swap
    · rw [if_neg h, if_neg (Ne.symm h), Option.map_none]
  all_goals exact Std.OrientedCmp.eq_swap

/-- Two orderings, neither of them downwards, compose. -/
theorem compare_then {α : Type} {cmp : α → α → Ordering} [Std.TransCmp cmp] {a b c : α}
    (hab : cmp a b ≠ .gt) (hbc : cmp b c ≠ .gt) : cmp a c = (cmp a b).then (cmp b c) := by
  cases h : cmp a b with
  | lt =>
    cases h' : cmp b c with
    | lt => exact Std.TransCmp.lt_trans h h'
    | eq => exact Std.TransCmp.lt_of_lt_of_eq h h'
    | gt => exact absurd h' hbc
  | eq =>
    cases h' : cmp b c with
    | lt => exact Std.TransCmp.lt_of_eq_of_lt h h'
    | eq => exact Std.TransCmp.eq_trans h h'
    | gt => exact absurd h' hbc
  | gt => exact absurd h hab

theorem order?_then (hab : a.order? b = some o) (hbc : b.order? c = some o') (ho : o ≠ .gt)
    (ho' : o' ≠ .gt) : a.order? c = some (o.then o') := by
  cases a <;> cases b <;> cases c <;> simp only [order?, reduceCtorEq] at hab hbc ⊢
  case amount.amount.amount units x units' y units'' z =>
    obtain ⟨hunits, hxy⟩ := Option.ite_none_right_eq_some.mp hab
    obtain ⟨hunits', hyz⟩ := Option.ite_none_right_eq_some.mp hbc
    cases hxy
    cases hyz
    rw [if_pos (hunits.trans hunits'), compare_then ho ho']
  all_goals
    cases hab
    cases hbc
    rw [compare_then ho ho']

theorem order?_isSome_trans (hab : (a.order? b).isSome) (hbc : (b.order? c).isSome) :
    (a.order? c).isSome := by
  cases a <;> cases b <;> cases c <;> simp_all [order?]

end Measure

/-! ### Days -/

theorem Calendar.one_le_daysInMonth (year : ℤ) {month : ℕ} (h : 1 ≤ month ∧ month ≤ 12) :
    1 ≤ daysInMonth year month := by
  obtain ⟨hfirst, hlast⟩ := h
  unfold daysInMonth
  interval_cases month <;> simp
  split <;> simp

namespace PartialDate

theorem InCalendar.firstMonth {d : PartialDate} (h : d.InCalendar) :
    1 ≤ d.month.getD 1 ∧ d.month.getD 1 ≤ 12 := by
  cases hd : d.month with
  | none => decide
  | some m => exact h.month m hd

theorem InCalendar.hasDay {d : PartialDate} (h : d.InCalendar) :
    Calendar.hasDay d.year (d.month.getD 1) 1 = true := by
  have hlength := Calendar.one_le_daysInMonth d.year h.firstMonth
  simp [Calendar.hasDay, h.year.1, h.year.2, hlength]

theorem InCalendar.firstDay? {d : PartialDate} (h : d.InCalendar) :
    d.firstDay? = some ⟨d.year, d.month.getD 1, 1, h.hasDay⟩ :=
  dif_pos h.hasDay

end PartialDate

namespace Concrete

def measure? : Concrete → Option Measure
  | integer n => some (.amount none n)
  | quantity q => some (.amount q.units q.magnitude.value)
  | string s => some (.text s)
  | markdown s => some (.markdown s)
  | boolean b => some (.truth b)
  | date d => some (.day d)
  | partialDate d => d.firstDay?.map .day
  | _ => none

/-- A value that is a partial date, perhaps with annotations, only if the calendar has it. -/
def Dated (a : Concrete) : Prop :=
  ∀ d, a.unannotated = .partialDate d → d.InCalendar

def number? (a : Concrete) : Option ℚ :=
  match a.unannotated with
  | integer n => some n
  | quantity q => if q.units.isNone then some q.magnitude.value else none
  | _ => none

def Comparable (a b : Concrete) : Prop :=
  ∃ o, a.order b = .ok o

theorem measure?_partialDate {d : PartialDate} (h : d.InCalendar) :
    (partialDate d).measure? = some (.day ⟨d.year, d.month.getD 1, 1, h.hasDay⟩) :=
  congrArg (Option.map Measure.day) h.firstDay?

/-- Values without annotations are ordered as their measures are. -/
theorem order?_eq_measure {a b : Concrete} (ha : ∀ d, a = .partialDate d → d.InCalendar)
    (hb : ∀ d, b = .partialDate d → d.InCalendar) :
    a.order? b = a.measure?.bind fun p => b.measure?.bind fun q => p.order? q := by
  -- A value of a type without an order has no measure, and measures of two kinds do not compare.
  cases a <;> cases b <;> try rfl
  case integer.integer m n =>
    simp only [order?, measure?, Option.bind_some, Measure.order?, if_true]
    rw [← cmp_eq_compare, ← cmp_eq_compare, Int.cast_strictMono.cmp_map_eq]
  case integer.quantity n q =>
    simp only [order?, measure?, Option.bind_some, Measure.order?, Decimal.orderInt_eq_compare,
      Option.isNone_iff_eq_none, @eq_comm _ none]
  case quantity.integer q n =>
    simp only [order?, measure?, Option.bind_some, Measure.order?, Decimal.orderInt_eq_compare,
      Option.isNone_iff_eq_none, ← Std.OrientedCmp.eq_swap]
  case quantity.quantity q r =>
    simp only [order?, measure?, Option.bind_some, Measure.order?, Decimal.order_eq_compare]
  case date.partialDate d e =>
    simp only [order?, measure?, (hb e rfl).firstDay?, Option.map_some, Option.bind_some,
      Measure.order?]
  case partialDate.date d e =>
    simp only [order?, measure?, (ha d rfl).firstDay?, Option.map_some, Option.bind_some,
      Measure.order?]
  case partialDate.partialDate d e =>
    simp only [order?, measure?, (ha d rfl).firstDay?, (hb e rfl).firstDay?, Option.map_some,
      Option.bind_some, Measure.order?, Date.order, PartialDate.order, Std.ReflCmp.compare_self,
      Ordering.then_eq]
  all_goals first
    | rw [measure?_partialDate (hb _ rfl)]; rfl
    | rw [measure?_partialDate (ha _ rfl)]; rfl

theorem order_eq_ok {a b : Concrete} {o : Ordering} :
    a.order b = .ok o ↔ a.unannotated.order? b.unannotated = some o := by
  unfold order
  dsimp only
  split
  next ordering h => simp [h]
  next h => simp [h]

theorem order_eq_ok_iff {a b : Concrete} (ha : a.Dated) (hb : b.Dated) {o : Ordering} :
    a.order b = .ok o ↔ ∃ p q, a.unannotated.measure? = some p ∧
      b.unannotated.measure? = some q ∧ p.order? q = some o := by
  rw [order_eq_ok, order?_eq_measure ha hb]
  simp only [Option.bind_eq_some_iff]
  constructor
  · rintro ⟨p, hp, q, hq, ho⟩
    exact ⟨p, q, hp, hq, ho⟩
  · rintro ⟨p, q, hp, hq, ho⟩
    exact ⟨p, hp, q, hq, ho⟩

theorem unannotated_of_annotate {a a' : Concrete} {annotations : Dict String Concrete}
    (h : a.annotate annotations = .ok a') : a'.unannotated = a.unannotated := by
  unfold annotate at h
  split at h
  · cases h
  · split at h
    · cases h
    · cases a <;> cases h <;> rfl

theorem order_congr {a a' b b' : Concrete} (ha : a'.unannotated = a.unannotated)
    (hb : b'.unannotated = b.unannotated) : a'.order b' = a.order b := by
  unfold order
  rw [ha, hb]

theorem measure?_of_number? {a : Concrete} {n : ℚ} (h : a.number? = some n) :
    a.unannotated.measure? = some (.amount none n) := by
  unfold number? at h
  split at h
  next k hinteger =>
    cases h
    rw [hinteger, measure?]
  next q hquantity =>
    obtain ⟨hunits, hn⟩ := Option.ite_none_right_eq_some.mp h
    cases hn
    rw [hquantity, measure?, Option.isNone_iff_eq_none.mp hunits]
  next => cases h

theorem dated_of_number? {a : Concrete} {n : ℚ} (h : a.number? = some n) : a.Dated := by
  intro d hd
  rw [number?, hd] at h
  cases h

section

variable {a b c : Concrete} {o o' : Ordering}

theorem order_swap (ha : a.Dated) (hb : b.Dated) (h : a.order b = .ok o) :
    b.order a = .ok o.swap := by
  obtain ⟨p, q, hp, hq, ho⟩ := (order_eq_ok_iff ha hb).mp h
  apply (order_eq_ok_iff hb ha).mpr
  refine ⟨q, p, hq, hp, ?_⟩
  rw [Measure.order?_swap, ho, Option.map_some]

theorem Comparable.symm (ha : a.Dated) (hb : b.Dated) (h : a.Comparable b) : b.Comparable a := by
  obtain ⟨o, ho⟩ := h
  exact ⟨o.swap, order_swap ha hb ho⟩

theorem Comparable.trans (ha : a.Dated) (hb : b.Dated) (hc : c.Dated) (hab : a.Comparable b)
    (hbc : b.Comparable c) : a.Comparable c := by
  obtain ⟨o, ho⟩ := hab
  obtain ⟨o', ho'⟩ := hbc
  obtain ⟨p, q, hp, hq, hpq⟩ := (order_eq_ok_iff ha hb).mp ho
  obtain ⟨q', r, hq', hr, hqr⟩ := (order_eq_ok_iff hb hc).mp ho'
  cases hq.symm.trans hq'
  have hpr := Measure.order?_isSome_trans (Option.isSome_of_eq_some hpq)
    (Option.isSome_of_eq_some hqr)
  obtain ⟨o'', ho''⟩ := Option.isSome_iff_exists.mp hpr
  exact ⟨o'', (order_eq_ok_iff ha hc).mpr ⟨p, r, hp, hr, ho''⟩⟩

theorem order_then (ha : a.Dated) (hb : b.Dated) (hc : c.Dated) (hab : a.order b = .ok o)
    (hbc : b.order c = .ok o') (ho : o ≠ .gt) (ho' : o' ≠ .gt) : a.order c = .ok (o.then o') := by
  obtain ⟨p, q, hp, hq, hpq⟩ := (order_eq_ok_iff ha hb).mp hab
  obtain ⟨q', r, hq', hr, hqr⟩ := (order_eq_ok_iff hb hc).mp hbc
  cases hq.symm.trans hq'
  exact (order_eq_ok_iff ha hc).mpr ⟨p, r, hp, hr, Measure.order?_then hpq hqr ho ho'⟩

theorem order_number {x y : ℚ} (ha : a.number? = some x) (hb : b.number? = some y) :
    a.order b = .ok (compare x y) := by
  apply (order_eq_ok_iff (dated_of_number? ha) (dated_of_number? hb)).mpr
  refine ⟨_, _, measure?_of_number? ha, measure?_of_number? hb, ?_⟩
  simp [Measure.order?]

/-- The order of values is a lawful one: it is reversed when the values are exchanged, the values
that can be compared fall into classes on each of which it is total and transitive, annotations do
not matter to it, and numbers are ordered as rational numbers. -/
theorem order_lawful (ha : a.Dated) (hb : b.Dated) (hc : c.Dated) :
    (∀ o, a.order b = .ok o ↔ b.order a = .ok o.swap) ∧
      (a.Comparable b ↔ b.Comparable a) ∧
      (a.Comparable b → b.Comparable c → a.Comparable c) ∧
      (∀ o o', a.order b = .ok o → b.order c = .ok o' → o ≠ .gt → o' ≠ .gt →
        a.order c = .ok (o.then o')) ∧
      (∀ annotations a', a.annotate annotations = .ok a' → ∀ x : Concrete,
        a'.order x = a.order x ∧ x.order a' = x.order a) ∧
      ∀ x y : ℚ, a.number? = some x → b.number? = some y → a.order b = .ok (compare x y) := by
  constructor
  · intro o
    constructor
    · exact order_swap ha hb
    · intro h
      rw [← Ordering.swap_swap (o := o)]
      exact order_swap hb ha h
  constructor
  · exact ⟨Comparable.symm ha hb, Comparable.symm hb ha⟩
  constructor
  · exact Comparable.trans ha hb hc
  constructor
  · intro o o'
    exact order_then ha hb hc
  constructor
  · intro annotations a' h x
    have hsame := unannotated_of_annotate h
    exact ⟨order_congr hsame rfl, order_congr rfl hsame⟩
  · intro x y
    exact order_number

/-- A year, its first day and its second month: the year and the day are equal, both come before the
month, and so does the year by the law of composition. -/
theorem order_lawful_year :
    let year := partialDate ⟨2020, none⟩
    let day := date ⟨2020, 1, 1, by decide⟩
    let month := partialDate ⟨2020, some 2⟩
    year.order day = .ok .eq ∧ day.order month = .ok .lt ∧ year.order month = .ok .lt := by
  intro year day month
  have hyear : year.Dated := by
    rintro d ⟨⟩
    exact ⟨by decide, by decide⟩
  have hday : day.Dated := by
    rintro d ⟨⟩
  have hmonth : month.Dated := by
    rintro d ⟨⟩
    exact ⟨by decide, by decide⟩
  have hfirst : year.order day = .ok .eq := rfl
  have hsecond : day.order month = .ok .lt := rfl
  exact ⟨hfirst, hsecond,
    (order_lawful hyear hday hmonth).2.2.2.1 .eq .lt hfirst hsecond (by decide) (by decide)⟩

end

end Concrete

end GraphExpr
