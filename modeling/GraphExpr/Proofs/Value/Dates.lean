import Mathlib.Algebra.Order.Ring.Nat
import Mathlib.Data.List.Induction
import GraphExpr.Eval.Scalars
import GraphExpr.Proofs.Canonical.Numeral
import GraphExpr.Value.Text

/-! # The texts of dates

The texts that are read as dates are those that name a day, a month or a year in ASCII digits, and
the values are written as they were read. To these come texts in which the last groups have digits
of other scripts: such a group denotes no number and is skipped, as if it were not there.
-/

namespace GraphExpr

/-! ### Digits -/

namespace Decimal

variable {cs ds : List Char}

theorem eq_of_digitValue {c d : Char} (hc : c.isDigit) (hd : d.isDigit)
    (h : digitValue c = digitValue d) : c = d := by
  obtain ⟨hc, -⟩ := Char.isDigit_iff_toNat.mp hc
  obtain ⟨hd, -⟩ := Char.isDigit_iff_toNat.mp hd
  unfold digitValue at h
  exact Char.toNat_inj.mp (by omega)

theorem ofDigits_concat (cs : List Char) (c : Char) :
    ofDigits 0 (cs ++ [c]) = ofDigits 0 cs * 10 + digitValue c := by
  rw [ofDigits_append]
  rfl

theorem ofDigits_lt (h : ∀ c ∈ cs, c.isDigit) : ofDigits 0 cs < 10 ^ cs.length := by
  induction cs using List.reverseRecOn with
  | nil => decide
  | append_singleton cs c ih =>
    rw [List.forall_mem_append, List.forall_mem_singleton] at h
    have hcs := ih h.1
    have hc := digitValue_le h.2
    rw [ofDigits_concat, List.length_append, List.length_singleton, pow_succ]
    omega

theorem ofDigits_injective (hlength : cs.length = ds.length) (hcs : ∀ c ∈ cs, c.isDigit)
    (hds : ∀ d ∈ ds, d.isDigit) (h : ofDigits 0 cs = ofDigits 0 ds) : cs = ds := by
  induction cs using List.reverseRecOn generalizing ds with
  | nil => exact (List.length_eq_zero_iff.mp hlength.symm).symm
  | append_singleton cs c ih =>
    cases ds using List.reverseRecOn with
    | nil => simp at hlength
    | append_singleton ds d =>
      rw [List.forall_mem_append, List.forall_mem_singleton] at hcs hds
      rw [ofDigits_concat, ofDigits_concat] at h
      have hc := digitValue_le hcs.2
      have hd := digitValue_le hds.2
      rw [ih (by simpa using hlength) hcs.1 hds.1 (by omega),
        eq_of_digitValue hcs.2 hds.2 (by omega)]

end Decimal

theorem Text.trim_eq_self {cs : List Char} (h : ∀ c ∈ cs, isBlank c = false) : trim cs = cs := by
  have hdrop {ds : List Char} (hds : ∀ c ∈ ds, isBlank c = false) : ds.dropWhile isBlank = ds := by
    cases ds with
    | nil => rfl
    | cons c ds => exact List.dropWhile_cons_of_neg (by simp [hds c (.head _)])
  rw [trim, trimStart, hdrop h, trimEnd, hdrop (by simpa using h), List.reverse_reverse]

/-! ### Numerals of a width -/

namespace Calendar

/-- ASCII digits that fill a width, and the number that they denote. -/
structure Numeral (width : ℕ) (cs : List Char) (n : ℕ) : Prop where
  length : cs.length = width
  digits : ∀ c ∈ cs, c.isDigit
  value : Decimal.ofDigits 0 cs = n

/-- Decimal digits of any script that fill a width. -/
structure Group (width : ℕ) (cs : List Char) : Prop where
  length : cs.length = width
  digits : ∀ c ∈ cs, Text.isDecimalDigit c

/-- Decimal digits that fill a width and denote no number, as not all of them are ASCII digits. -/
structure Foreign (width : ℕ) (cs : List Char) : Prop extends Group width cs where
  beyond : ∃ c ∈ cs, ¬ c.isDigit

variable {width n : ℕ} {cs ds rest : List Char}

theorem Numeral.zeroPadded_eq (h : Numeral width cs n) (hwidth : 0 < width) :
    zeroPadded width n = String.ofList cs := by
  obtain ⟨hlength, hdigits, hvalue⟩ := h
  have hfits : (Nat.toDigits 10 n).length ≤ width := by
    rw [Nat.length_toDigits_le_iff (by decide) hwidth, ← hvalue, ← hlength]
    exact Decimal.ofDigits_lt hdigits
  refine congrArg String.ofList (Decimal.ofDigits_injective ?_ ?_ hdigits ?_)
  · rw [List.length_append, List.length_replicate, hlength]
    omega
  · intro c hc
    rcases List.mem_append.mp hc with hc | hc
    · rw [List.eq_of_mem_replicate hc]
      decide
    · exact Nat.isDigit_of_mem_toDigits (by decide) (by decide) hc
  · rw [Decimal.ofDigits_zeros, Decimal.ofDigits_toDigits, hvalue]

/-! ### Numbers and groups -/

theorem isDecimalDigit_of_isDigit {c : Char} (h : c.isDigit) : Text.isDecimalDigit c := by
  obtain ⟨-, hgreatest⟩ := Char.isDigit_iff_toNat.mp h
  change c.toNat ≤ 57 at hgreatest
  rw [Text.isDecimalDigit, Text.inClass, if_pos (by omega)]
  exact h

theorem Numeral.group (h : Numeral width cs n) : Group width cs :=
  ⟨h.length, fun c hc => isDecimalDigit_of_isDigit (h.digits c hc)⟩

theorem Numeral.number?_eq (h : Numeral width cs n) : number? cs = some n := by
  obtain ⟨-, hdigits, rfl⟩ := h
  exact if_pos (List.all_eq_true.mpr hdigits)

theorem Foreign.number?_eq (h : Foreign width cs) : number? cs = none := by
  obtain ⟨c, hc, hbeyond⟩ := h.beyond
  exact if_neg fun hall => hbeyond (List.all_eq_true.mp hall c hc)

theorem Group.numeral (h : Group width cs) (hn : number? cs = some n) :
    Numeral width cs n := by
  unfold number? at hn
  split at hn
  next hdigits =>
    cases hn
    exact ⟨h.length, List.all_eq_true.mp hdigits, rfl⟩
  next => cases hn

theorem Group.foreign (h : Group width cs) (hn : number? cs = none) :
    Foreign width cs := by
  refine ⟨h, ?_⟩
  by_contra hnone
  have hdigits : cs.all Char.isDigit := List.all_eq_true.mpr fun c hc =>
    by_contra fun hbeyond => hnone ⟨c, hc, hbeyond⟩
  rw [number?, if_pos hdigits] at hn
  cases hn

theorem takeDigits?_append (h : Group width cs) (rest : List Char) :
    takeDigits? width (cs ++ rest) = some (cs, rest) := by
  obtain ⟨rfl, hdigits⟩ := h
  unfold takeDigits?
  dsimp only
  rw [List.take_left, List.drop_left, if_pos ⟨rfl, List.all_eq_true.mpr hdigits⟩]

theorem takeDigits?_eq_some (h : takeDigits? width cs = some (ds, rest)) :
    Group width ds ∧ cs = ds ++ rest := by
  unfold takeDigits? at h
  dsimp only at h
  split at h
  next hdigits =>
    cases h
    exact ⟨⟨hdigits.1, List.all_eq_true.mp hdigits.2⟩, (List.take_append_drop _ _).symm⟩
  next => cases h

/-- The groups of a text: a year, or a month and a day behind hyphens as well. -/
inductive Groups : List Char → List Char → Option (List Char) → Option (List Char) → Prop where
  | year {y : List Char} : Group 4 y → Groups y y none none
  | month {y m : List Char} : Group 4 y → Group 2 m → Groups (y ++ '-' :: m) y (some m) none
  | day {y m d : List Char} : Group 4 y → Group 2 m → Group 2 d →
      Groups (y ++ '-' :: (m ++ '-' :: d)) y (some m) (some d)

theorem groups?_of_groups {y : List Char} {m d : Option (List Char)} (h : Groups cs y m d) :
    groups? cs = some (y, m, d) := by
  have htake {w : ℕ} {g : List Char} (hg : Group w g) : takeDigits? w g = some (g, []) := by
    simpa using takeDigits?_append hg []
  unfold groups?
  cases h with
  | year hy => rw [htake hy]
  | month hy hm =>
    simp only [takeDigits?_append hy, htake hm]
  | day hy hm hd =>
    simp only [takeDigits?_append hy, takeDigits?_append hm, htake hd]

theorem groups_of_groups? {y : List Char} {m d : Option (List Char)}
    (h : groups? cs = some (y, m, d)) : Groups cs y m d := by
  unfold groups? at h
  split at h
  next hyear =>
    obtain ⟨hy, rfl⟩ := takeDigits?_eq_some hyear
    cases h
    simpa using Groups.year hy
  next rest hyear =>
    obtain ⟨hy, rfl⟩ := takeDigits?_eq_some hyear
    split at h
    next hmonth =>
      obtain ⟨hm, rfl⟩ := takeDigits?_eq_some hmonth
      cases h
      simpa using Groups.month hy hm
    next rest hmonth =>
      obtain ⟨hm, rfl⟩ := takeDigits?_eq_some hmonth
      split at h
      next hday =>
        obtain ⟨hd, rfl⟩ := takeDigits?_eq_some hday
        cases h
        simpa using Groups.day hy hm hd
      next => cases h
    next => cases h
  next => cases h

/-- A date, or a partial date, of numbers. -/
inductive Assembled (year : ℕ) : Option ℕ → Option ℕ → PartialDate ⊕ Date → Prop where
  | year : Assembled year none none (.inl ⟨year, none⟩)
  | month {k : ℕ} : 1 ≤ k → k ≤ 12 → Assembled year (some k) none (.inl ⟨year, some k⟩)
  | day {date : Date} : date.year = year →
      Assembled year (some date.month) (some date.day) (.inr date)

theorem ofParts?_eq_some_iff {year : ℤ} {month day : ℕ} {date : Date} :
    Date.ofParts? year month day = some date ↔
      date.year = year ∧ date.month = month ∧ date.day = day := by
  unfold Date.ofParts?
  constructor
  · intro h
    split at h <;> cases h
    exact ⟨rfl, rfl, rfl⟩
  · rintro ⟨rfl, rfl, rfl⟩
    exact dif_pos date.inCalendar

/-- What is read is the date of those numbers that the groups denote, as if there were no others. -/
theorem read?_eq_some_iff {s : String} (hcs : Text.trim s.toList = cs) {r : PartialDate ⊕ Date} :
    read? s = some r ↔ ∃ y m d n, Groups cs y m d ∧ number? y = some n ∧
      Assembled n (m.bind number?) (d.bind number?) r := by
  unfold read?
  rw [hcs]
  constructor
  · intro h
    obtain ⟨⟨y, m, d⟩, hfound, h⟩ := Option.bind_eq_some_iff.mp h
    obtain ⟨n, hn, h⟩ := Option.bind_eq_some_iff.mp h
    refine ⟨y, m, d, n, groups_of_groups? hfound, hn, ?_⟩
    split at h
    next k l hk hl =>
      obtain ⟨date, hdate, rfl⟩ := Option.map_eq_some_iff.mp h
      obtain ⟨hyear, rfl, rfl⟩ := ofParts?_eq_some_iff.mp hdate
      rw [hk, hl]
      exact .day hyear
    next k hk hl =>
      obtain ⟨⟨hleast, hgreatest⟩, hr⟩ := Option.ite_none_right_eq_some.mp h
      cases hr
      rw [hk, hl]
      exact .month hleast hgreatest
    next hk hl =>
      cases h
      rw [hk, hl]
      exact .year
    next => cases h
  · rintro ⟨y, m, d, n, hgroups, hn, hr⟩
    rw [groups?_of_groups hgroups]
    simp only [Option.bind_eq_bind, Option.bind_some, hn]
    generalize m.bind number? = o, d.bind number? = o' at hr ⊢
    cases hr with
    | year => rfl
    | month hleast hgreatest => exact if_pos ⟨hleast, hgreatest⟩
    | day hyear =>
      exact congrArg (Option.map Sum.inr) (ofParts?_eq_some_iff.mpr ⟨hyear, rfl, rfl⟩)

end Calendar

/-! ### The texts that are read -/

namespace Concrete

open Calendar

/-- The text names the value: a year in four ASCII digits, behind a hyphen a month in two, and
behind another one a day in two. -/
inductive Names : List Char → Concrete → Prop where
  | year {y : List Char} {n : ℕ} : Numeral 4 y n → Names y (.partialDate ⟨n, none⟩)
  | month {y m : List Char} {n k : ℕ} : Numeral 4 y n → Numeral 2 m k → 1 ≤ k → k ≤ 12 →
      Names (y ++ '-' :: m) (.partialDate ⟨n, some k⟩)
  | day {y m d : List Char} {n : ℕ} {date : Date} : Numeral 4 y n → date.year = n →
      Numeral 2 m date.month → Numeral 2 d date.day →
      Names (y ++ '-' :: (m ++ '-' :: d)) (.date date)

/-- The text names the value, but for its last groups, which denote no numbers. -/
inductive Skips : List Char → Concrete → Prop where
  | month {y m : List Char} {n : ℕ} : Numeral 4 y n → Foreign 2 m →
      Skips (y ++ '-' :: m) (.partialDate ⟨n, none⟩)
  | monthAndDay {y m d : List Char} {n : ℕ} : Numeral 4 y n → Foreign 2 m → Foreign 2 d →
      Skips (y ++ '-' :: (m ++ '-' :: d)) (.partialDate ⟨n, none⟩)
  | day {y m d : List Char} {n k : ℕ} : Numeral 4 y n → Numeral 2 m k → 1 ≤ k → k ≤ 12 →
      Foreign 2 d → Skips (y ++ '-' :: (m ++ '-' :: d)) (.partialDate ⟨n, some k⟩)

variable {s : String} {cs : List Char} {v : Concrete}

theorem readDate_eq_ok_iff :
    readDate s = .ok v ↔ ∃ r, read? s = some r ∧ Sum.elim partialDate date r = v := by
  unfold readDate
  rcases read? s with _ | _ | _ <;> simp

theorem Names.chars (h : Names cs v) : ∀ c ∈ cs, c.isDigit ∨ c = '-' := by
  intro c hc
  cases h with
  | year hy => exact .inl (hy.digits c hc)
  | month hy hm =>
    rcases List.mem_append.mp hc with hc | hc
    · exact .inl (hy.digits c hc)
    · exact (List.mem_cons.mp hc).symm.imp_left (hm.digits c)
  | day hy _ hm hd =>
    rcases List.mem_append.mp hc with hc | hc
    · exact .inl (hy.digits c hc)
    rcases List.mem_cons.mp hc with rfl | hc
    · exact .inr rfl
    rcases List.mem_append.mp hc with hc | hc
    · exact .inl (hm.digits c hc)
    · exact (List.mem_cons.mp hc).symm.imp_left (hd.digits c)

theorem Skips.not_names (h : Skips cs v) (w : Concrete) : ¬ Names cs w := by
  have hskips : ∃ c ∈ cs, Text.isDecimalDigit c ∧ ¬ c.isDigit := by
    cases h with
    | month hy hm =>
      obtain ⟨c, hc, hbeyond⟩ := hm.beyond
      exact ⟨c, by simp [hc], hm.digits c hc, hbeyond⟩
    | monthAndDay hy hm hd =>
      obtain ⟨c, hc, hbeyond⟩ := hm.beyond
      exact ⟨c, by simp [hc], hm.digits c hc, hbeyond⟩
    | day hy hm _ _ hd =>
      obtain ⟨c, hc, hbeyond⟩ := hd.beyond
      exact ⟨c, by simp [hc], hd.digits c hc, hbeyond⟩
  obtain ⟨c, hc, hdigit, hbeyond⟩ := hskips
  have hhyphen : c ≠ '-' := by
    rintro rfl
    revert hdigit
    decide +kernel
  exact fun hnames => (hnames.chars c hc).elim hbeyond hhyphen

section

variable (hcs : Text.trim s.toList = cs)

include hcs

theorem readDate_of_names (h : Names cs v) : readDate s = .ok v := by
  rw [readDate_eq_ok_iff]
  cases h with
  | year hy =>
    exact ⟨_, (read?_eq_some_iff hcs).mpr ⟨_, _, _, _, .year hy.group, hy.number?_eq, .year⟩, rfl⟩
  | month hy hm hleast hgreatest =>
    refine ⟨.inl _, (read?_eq_some_iff hcs).mpr ⟨_, _, _, _, .month hy.group hm.group,
      hy.number?_eq, ?_⟩, rfl⟩
    rw [Option.bind_some, hm.number?_eq]
    exact .month hleast hgreatest
  | day hy hyear hm hd =>
    refine ⟨.inr _, (read?_eq_some_iff hcs).mpr ⟨_, _, _, _, .day hy.group hm.group hd.group,
      hy.number?_eq, ?_⟩, rfl⟩
    rw [Option.bind_some, Option.bind_some, hm.number?_eq, hd.number?_eq]
    exact .day hyear

theorem readDate_of_skips (h : Skips cs v) : readDate s = .ok v := by
  rw [readDate_eq_ok_iff]
  cases h with
  | month hy hm =>
    refine ⟨.inl _, (read?_eq_some_iff hcs).mpr ⟨_, _, _, _, .month hy.group hm.toGroup,
      hy.number?_eq, ?_⟩, rfl⟩
    rw [Option.bind_some, hm.number?_eq]
    exact .year
  | monthAndDay hy hm hd =>
    refine ⟨.inl _, (read?_eq_some_iff hcs).mpr ⟨_, _, _, _,
      .day hy.group hm.toGroup hd.toGroup, hy.number?_eq, ?_⟩, rfl⟩
    rw [Option.bind_some, Option.bind_some, hm.number?_eq, hd.number?_eq]
    exact .year
  | day hy hm hleast hgreatest hd =>
    refine ⟨.inl _, (read?_eq_some_iff hcs).mpr ⟨_, _, _, _,
      .day hy.group hm.group hd.toGroup, hy.number?_eq, ?_⟩, rfl⟩
    rw [Option.bind_some, Option.bind_some, hm.number?_eq, hd.number?_eq]
    exact .month hleast hgreatest

theorem names_or_skips (h : readDate s = .ok v) : Names cs v ∨ Skips cs v := by
  obtain ⟨r, hr, rfl⟩ := readDate_eq_ok_iff.mp h
  obtain ⟨y, m, d, n, hgroups, hn, hr⟩ := (read?_eq_some_iff hcs).mp hr
  cases hgroups with
  | year hy =>
    cases hr
    exact .inl (.year (hy.numeral hn))
  | @month _ m hy hm =>
    change Assembled n (Calendar.number? m) none r at hr
    generalize hk : Calendar.number? m = o at hr
    cases hr with
    | year => exact .inr (.month (hy.numeral hn) (hm.foreign hk))
    | month hleast hgreatest =>
      exact .inl (.month (hy.numeral hn) (hm.numeral hk) hleast hgreatest)
  | @day _ m d hy hm hd =>
    change Assembled n (Calendar.number? m) (Calendar.number? d) r at hr
    generalize hk : Calendar.number? m = o, hl : Calendar.number? d = o' at hr
    cases hr with
    | year => exact .inr (.monthAndDay (hy.numeral hn) (hm.foreign hk) (hd.foreign hl))
    | month hleast hgreatest =>
      exact .inr (.day (hy.numeral hn) (hm.numeral hk) hleast hgreatest (hd.foreign hl))
    | day hyear => exact .inl (.day (hy.numeral hn) hyear (hm.numeral hk) (hd.numeral hl))

theorem readDate_eq_ok_iff_names : readDate s = .ok v ↔ Names cs v ∨ Skips cs v :=
  ⟨names_or_skips hcs, fun h => h.elim (readDate_of_names hcs) (readDate_of_skips hcs)⟩

end

theorem readDate_eq_error {e : EvalError} (h : readDate s = .error e) : e = .invalidDate := by
  unfold readDate at h
  split at h <;> cases h
  rfl

theorem yearText_eq {y : List Char} {n : ℕ} (hy : Numeral 4 y n) :
    PartialDate.yearText n = .ofList y ∧ Date.yearText n = .ofList y := by
  have hfits : n < 10 ^ 4 := by
    rw [← hy.value, ← hy.length]
    exact Decimal.ofDigits_lt hy.digits
  have hyear : zeroPadded 4 (n : ℤ).natAbs = .ofList y := hy.zeroPadded_eq (by decide)
  constructor
  · rw [PartialDate.yearText, if_neg (by omega), hyear]
  · rw [Date.yearText, if_pos (by omega), hyear]

theorem ofList_hyphen (left right : List Char) :
    String.ofList left ++ "-" ++ String.ofList right = String.ofList (left ++ '-' :: right) := by
  rw [← String.toList_inj]
  simp

def dateText : Concrete → String
  | date d => d.toText
  | partialDate d => d.toText
  | _ => ""

theorem Names.dateText_eq (h : Names cs v) : v.dateText = .ofList cs := by
  cases h with
  | year hy => exact (yearText_eq hy).1
  | @month y m n k hy hm =>
    show PartialDate.yearText n ++ "-" ++ zeroPadded 2 k = _
    rw [(yearText_eq hy).1, hm.zeroPadded_eq (by decide), ofList_hyphen]
  | @day y m d n date hy hyear hm hd =>
    show date.toText = _
    rw [Date.toText, hyear, (yearText_eq hy).2, hm.zeroPadded_eq (by decide),
      hd.zeroPadded_eq (by decide), ofList_hyphen, ofList_hyphen, List.append_assoc]
    rfl

theorem Names.written (h : Names cs v) :
    v.toJson = tagged v.type [("value", .string (.ofList cs))] ∧
      v.literalText? = some ("date(\"" ++ String.ofList cs ++ "\")") := by
  rw [← h.dateText_eq]
  cases h <;> exact ⟨rfl, rfl⟩

theorem isBlank_of_isDigit {c : Char} (h : c.isDigit) : Text.isBlank c = false := by
  obtain ⟨hleast, hgreatest⟩ := Char.isDigit_iff_toNat.mp h
  change 48 ≤ c.toNat at hleast
  change c.toNat ≤ 57 at hgreatest
  have hspace : c ≠ ' ' := by
    rintro rfl
    exact absurd hleast (by decide)
  have hreturn : ¬ c ≤ '\r' := fun hle => by
    have hnat : c.toNat ≤ 13 := hle
    omega
  rw [Text.isBlank, Text.inClass, if_pos (by omega)]
  simp [hspace, hreturn]

theorem Names.trim_eq (h : Names cs v) : Text.trim cs = cs := by
  refine Text.trim_eq_self fun c hc => ?_
  rcases h.chars c hc with hdigit | rfl
  · exact isBlank_of_isDigit hdigit
  · decide

theorem Skips.exists_names (h : Skips cs v) : ∃ ds, Names ds v := by
  cases h with
  | month hy _ => exact ⟨_, .year hy⟩
  | monthAndDay hy _ _ => exact ⟨_, .year hy⟩
  | day hy hm hleast hgreatest _ => exact ⟨_, .month hy hm hleast hgreatest⟩

/-- What has been read as a date is read again from the text that it is written as. -/
theorem readDate_dateText (h : readDate s = .ok v) : readDate v.dateText = .ok v := by
  obtain ⟨cs, hcs⟩ : ∃ cs, Names cs v :=
    (names_or_skips rfl h).elim (fun h => ⟨_, h⟩) Skips.exists_names
  rw [hcs.dateText_eq]
  exact readDate_of_names (by rw [String.toList_ofList, hcs.trim_eq]) hcs

/-- A text is read exactly as what it names, unless it has groups that are skipped. A value that is
named is written as its text, and a text that is not read is no date. -/
theorem readDate_names_iff (s : String) :
    ((∀ v, readDate s = .ok v ↔ Names (Text.trim s.toList) v) ↔
        ¬ ∃ v, Skips (Text.trim s.toList) v) ∧
      (∀ v, Names (Text.trim s.toList) v →
        v.toJson = tagged v.type [("value", .string (Text.trimText s))] ∧
          v.literalText? = some ("date(\"" ++ Text.trimText s ++ "\")")) ∧
      ((∃ v, readDate s = .ok v) ∨ readDate s = .error .invalidDate) := by
  refine ⟨⟨?_, fun hskips v => ?_⟩, fun v hv => hv.written, ?_⟩
  · rintro hnames ⟨v, hv⟩
    exact hv.not_names v ((hnames v).mp ((readDate_eq_ok_iff_names rfl).mpr (.inr hv)))
  · rw [readDate_eq_ok_iff_names rfl]
    exact or_iff_left fun hv => hskips ⟨v, hv⟩
  · cases hread : readDate s with
    | ok v => exact .inl ⟨v, rfl⟩
    | error e => exact .inr (congrArg _ (readDate_eq_error hread))

/-- A month in Arabic-Indic digits is skipped, so that a year is read where none is named. -/
theorem readDate_skips_month :
    readDate "2020-\u0660\u0661" = .ok (.partialDate ⟨2020, none⟩) ∧
      ∀ v, ¬ Names "2020-\u0660\u0661".toList v := by
  have hyear : Numeral 4 "2020".toList 2020 := ⟨rfl, List.all_eq_true.mp rfl, rfl⟩
  have hmonth : Foreign 2 "\u0660\u0661".toList :=
    ⟨⟨rfl, List.all_eq_true.mp (by decide +kernel)⟩, '\u0660', .head _, by decide⟩
  have hskips : Skips "2020-\u0660\u0661".toList (.partialDate ⟨2020, none⟩) :=
    .month hyear hmonth
  exact ⟨(readDate_eq_ok_iff_names (by decide +kernel)).mpr (.inr hskips), hskips.not_names⟩

end Concrete

end GraphExpr
