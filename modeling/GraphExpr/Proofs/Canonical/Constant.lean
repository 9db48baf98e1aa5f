import GraphExpr.Proofs.Canonical.Spelling

/-! # Constants read back

The canonical text of a constant is read as one token, as long as what follows neither continues
a word nor a number. A quantity without units is read with a digit behind the point.
-/

namespace GraphExpr

/-- Units that can be read between brackets. -/
def IsUnits (units : String) : Prop :=
  units ≠ "" ∧ Text.trim units.toList = units.toList ∧
    ∀ c ∈ units.toList, Token.isUnitChar c = true

namespace Literal

/-- A constant whose canonical text can be read. -/
def IsWritable : Literal → Prop
  | quantity ⟨_, some units⟩ => IsUnits units
  | entry id => Token.IsReferenceId id.text
  | property id => Token.IsReferenceId id.text
  | entryType id => Token.IsReferenceId id.text
  | _ => True

/-- The constant that the canonical text is read as. -/
def reread : Literal → Literal
  | quantity ⟨magnitude, none⟩ => quantity ⟨magnitude.pointed, none⟩
  | literal => literal

theorem same_refl (l : Literal) : l.same l = true := by
  cases l <;> simp [same, Quantity.same, Decimal.same, Decimal.order]

theorem reread_same (l : Literal) : l.same l.reread = true := by
  match l with
  | quantity ⟨magnitude, none⟩ =>
    simp [reread, same, Quantity.same, Decimal.pointed_same]
  | quantity ⟨_, some _⟩ | null | boolean _ | integer _ | string _ | entry _ | property _
  | entryType _ => exact same_refl _

end Literal

namespace Token

def isDelimiter (c : Char) : Bool :=
  c == ',' || c == ')' || c == ']'

/-- What may follow an expression: nothing, a delimiter, or a dot with a name behind it. -/
inductive Follows : List Char → Prop where
  | nil : Follows []
  | delimiter {c : Char} {rest : List Char} : isDelimiter c = true → Follows (c :: rest)
  | dot {c : Char} {rest : List Char} : isWordStart c = true → Follows ('.' :: c :: rest)

namespace Follows

variable {rest : List Char}

theorem heads {p : Char → Bool} (h : Follows rest)
    (hp : p ',' = true ∧ p ')' = true ∧ p ']' = true ∧ p '.' = true) : Heads p rest := by
  cases h with
  | nil => exact heads_nil p
  | delimiter hc =>
    simp only [isDelimiter, Bool.or_eq_true, beq_iff_eq] at hc
    rcases hc with (rfl | rfl) | rfl
    · exact heads_cons.mpr hp.1
    · exact heads_cons.mpr hp.2.1
    · exact heads_cons.mpr hp.2.2.1
  | dot _ => exact heads_cons.mpr hp.2.2.2

theorem readFraction_eq (h : Follows rest) : readFraction rest = (none, rest) := by
  cases h with
  | nil => rfl
  | delimiter hc =>
    simp only [isDelimiter, Bool.or_eq_true, beq_iff_eq] at hc
    rcases hc with (rfl | rfl) | rfl <;> rfl
  | dot hc => simp [readFraction, isDigit_eq_false_of_isWordStart hc]

theorem readUnits?_eq_none (h : Follows rest) : readUnits? rest = none := by
  have hp : Heads (fun c => !isUnitGap c && c != '[') rest := h.heads (by decide)
  cases rest with
  | nil => rfl
  | cons c rest =>
    simp only [heads_cons, Bool.and_eq_true, Bool.not_eq_true', bne_iff_ne] at hp
    simp [readUnits?, hp.1, hp.2]

end Follows

structure EndsNumber (rest : List Char) : Prop where
  heads : Heads (fun c => !c.isDigit) rest
  readFraction_eq : readFraction rest = (none, rest)
  readUnits?_eq_none : readUnits? rest = none

def fractionText : Option (List Char) → List Char
  | none => []
  | some digits => '.' :: digits

/-- A text that continues neither the digits before it nor adds a fraction to them. -/
structure EndsDigits (fraction : Option (List Char)) (rest : List Char) : Prop where
  heads : Heads (fun c => !c.isDigit) rest
  readFraction_eq : fraction = none → readFraction rest = (none, rest)

theorem EndsNumber.digits {fraction : Option (List Char)} {rest : List Char}
    (h : EndsNumber rest) : EndsDigits fraction rest :=
  ⟨h.heads, fun _ => h.readFraction_eq⟩

theorem endsDigits_of_readUnits? {fraction : Option (List Char)} {cs rest : List Char}
    {units : String} (h : readUnits? cs = some (units, rest)) : EndsDigits fraction cs := by
  cases cs with
  | nil => cases h
  | cons c cs =>
    have hc : isUnitGap c = true ∨ c = '[' := by
      cases hgap : isUnitGap c with
      | true => exact .inl rfl
      | false =>
        by_cases hb : c = '['
        · exact .inr hb
        · simp [readUnits?, hgap, hb] at h
    have hdot : c ≠ '.' := by rintro rfl; simp [isUnitGap] at hc
    refine ⟨heads_cons.mpr ?_, fun _ => by simp [readFraction, hdot]⟩
    simp only [isUnitGap, Bool.or_eq_true, beq_iff_eq] at hc
    rcases hc with (rfl | rfl) | rfl <;> decide

theorem Follows.endsNumber {rest : List Char} (h : Follows rest) : EndsNumber rest :=
  ⟨h.heads (by decide), h.readFraction_eq, h.readUnits?_eq_none⟩

/-! ### References -/

theorem stripStart?_append (p cs : List Char) : stripStart? p (p ++ cs) = some cs := by
  induction p with
  | nil => cases cs <;> rfl
  | cons c p ih => simpa [stripStart?] using ih

theorem readReference?_sort {name s : String} (h : IsReferenceId s) (rest : List Char)
    (literal : String → Literal)
    (hsort : (name = "entry/" ∧ literal = (.entry ⟨·⟩)) ∨
      (name = "prop/" ∧ literal = (.property ⟨·⟩)) ∨
      (name = "etype/" ∧ literal = (.entryType ⟨·⟩))) :
    readReference? ("[[/".toList ++ (name.toList ++ (s.toList ++ ']' :: ']' :: rest))) =
      some (literal s, rest) := by
  rw [readReference?, stripStart?_append]
  rcases hsort with ⟨rfl, rfl⟩ | ⟨rfl, rfl⟩ | ⟨rfl, rfl⟩ <;>
    simp [stripStart?, readReferenceEnd?_append h]

/-! ### Numbers -/

theorem readUnits?_eq (gap : List Char) {name : List Char} (hgap : ∀ c ∈ gap, isUnitGap c = true)
    (hne : name ≠ []) (hname : ∀ c ∈ name, isUnitChar c = true) (rest : List Char) :
    readUnits? (gap ++ '[' :: (name ++ ']' :: rest)) =
      some (String.ofList (Text.trim name), rest) := by
  have hopen : Heads (fun c => c == '[') ('[' :: (name ++ ']' :: rest)) := heads_cons.mpr rfl
  have hclose : Heads (fun c => c == ']') (']' :: rest) := heads_cons.mpr rfl
  have hdrop := (takeWhile_append_heads hgap hopen (by simp [isUnitGap])).2
  have hin := takeWhile_append_heads hname hclose (by simp [isUnitChar])
  obtain ⟨c, cs, rfl⟩ := List.exists_cons_of_ne_nil hne
  rw [readUnits?, hdrop]
  simp only [hin.1, hin.2]

theorem readUnits?_bracket {units : String} (hu : IsUnits units) (rest : List Char) :
    readUnits? (" [".toList ++ (units.toList ++ ']' :: rest)) = some (units, rest) := by
  have hne : units.toList ≠ [] := fun he => hu.1 (String.toList_inj.mp he)
  have h := readUnits?_eq [' '] (by simp [isUnitGap]) hne hu.2.2 rest
  rwa [hu.2.1, String.ofList_toList] at h

def signText (negative : Bool) : List Char :=
  if negative then ['-'] else []

theorem readFraction_fractionText {fraction : Option (List Char)} {rest : List Char}
    (hf : ∀ digits ∈ fraction, digits ≠ [] ∧ ∀ c ∈ digits, c.isDigit = true)
    (hrest : EndsDigits fraction rest) :
    readFraction (fractionText fraction ++ rest) = (fraction, rest) := by
  cases fraction with
  | none => exact hrest.readFraction_eq rfl
  | some digits =>
    obtain ⟨hne, hfd⟩ := hf digits rfl
    obtain ⟨hftake, hfdrop⟩ := takeWhile_append_heads hfd hrest.heads (by simp)
    rw [fractionText, List.cons_append, readFraction, hftake, hfdrop]
    obtain ⟨c, cs, rfl⟩ := List.exists_cons_of_ne_nil hne
    rfl

def numberOf? (negative : Bool) (whole : List Char) :
    Option (List Char) → Option String → Option Literal
  | fraction, some units => (Decimal.ofNumeral? negative whole (fraction.getD [])).map
      (.quantity ⟨·, some units⟩)
  | some digits, none => (Decimal.ofNumeral? negative whole digits).map (.quantity ⟨·, none⟩)
  | none, none => some (.integer (if negative then -(Decimal.ofDigits 0 whole : Int)
      else Decimal.ofDigits 0 whole))

section Number

variable {negative : Bool} {whole rest : List Char} (hw : whole ≠ [])
  (hd : ∀ c ∈ whole, c.isDigit = true)

include hw hd

theorem readSign_digits : readSign (signText negative ++ (whole ++ rest)) =
    (negative, whole ++ rest) := by
  obtain ⟨c, cs, rfl⟩ := List.exists_cons_of_ne_nil hw
  have hc : c ≠ '-' := ne_of_class (hd c (by simp)) (by decide)
  cases negative <;> simp [signText, readSign, hc]

theorem spells_number {value : Literal} {tail : List Char}
    (h : readNumber? (signText negative ++ (whole ++ tail) ++ rest) = some (value, rest)) :
    Spells (.literal value) (signText negative ++ (whole ++ tail)) rest := by
  have hhead : ∃ c cs, signText negative ++ (whole ++ tail) = c :: cs ∧
      (c = '-' ∨ c.isDigit = true) := by
    obtain ⟨c, cs, rfl⟩ := List.exists_cons_of_ne_nil hw
    cases negative with
    | false => exact ⟨c, cs ++ tail, rfl, .inr (hd c (by simp))⟩
    | true => exact ⟨'-', c :: cs ++ tail, rfl, .inl rfl⟩
  obtain ⟨c, cs, heq, hc⟩ := hhead
  have hne (d : Char) (hm : d ≠ '-') (hdigit : d.isDigit = false) : c ≠ d := by
    rintro rfl
    simp [hm, hdigit] at hc
  rw [heq, List.cons_append] at h
  rw [heq]
  have hsep : isSeparator c = false := isSeparator_eq_false (hne _ (by decide) (by decide))
    (hne _ (by decide) (by decide)) (hne _ (by decide) (by decide))
    (hne _ (by decide) (by decide))
  refine ⟨by simp [hsep], ?_⟩
  simp [read?, readString?_eq_none (hne _ (by decide) (by decide)),
    readReference?_eq_none (hne _ (by decide) (by decide)), h]

/-- A number is read from its digits, and from its units if they follow. -/
theorem readNumber?_eq (negative : Bool) (fraction : Option (List Char))
    (hf : ∀ digits ∈ fraction, digits ≠ [] ∧ ∀ c ∈ digits, c.isDigit = true)
    (hrest : EndsDigits fraction rest) :
    readNumber? (signText negative ++ (whole ++ (fractionText fraction ++ rest))) =
      (numberOf? negative whole fraction ((readUnits? rest).map Prod.fst)).map
        (·, ((readUnits? rest).map Prod.snd).getD rest) := by
  have hheads : Heads (fun c => !c.isDigit) (fractionText fraction ++ rest) := by
    cases fraction with
    | none => exact hrest.heads
    | some digits => exact heads_cons.mpr (by decide)
  obtain ⟨htake, hdrop⟩ := takeWhile_append_heads hd hheads (by simp)
  have hwhole : whole.isEmpty = false := by simpa using hw
  rw [readNumber?, readSign_digits hw hd]
  simp only [htake, hdrop, readFraction_fractionText hf hrest, hwhole]
  cases hunits : readUnits? rest with
  | some read =>
    simp only [Option.map_some, numberOf?]
    cases Decimal.ofNumeral? negative whole (fraction.getD []) <;> rfl
  | none =>
    cases fraction with
    | none => rfl
    | some digits =>
      simp only [Option.map_none, numberOf?]
      cases Decimal.ofNumeral? negative whole digits <;> rfl

theorem readNumber?_integer (hrest : EndsNumber rest) :
    readNumber? (signText negative ++ (whole ++ rest)) =
      some (.integer (if negative then -(Decimal.ofDigits 0 whole : Int)
        else Decimal.ofDigits 0 whole), rest) := by
  have h := readNumber?_eq hw hd negative none (by simp) hrest.digits
  simpa [fractionText, numberOf?, hrest.readUnits?_eq_none] using h

theorem readNumber?_decimal {fraction : List Char} {magnitude : Decimal}
    (hf : fraction ≠ []) (hfd : ∀ c ∈ fraction, c.isDigit = true) (hrest : EndsNumber rest)
    (hm : Decimal.ofNumeral? negative whole fraction = some magnitude) :
    readNumber? (signText negative ++ (whole ++ '.' :: fraction ++ rest)) =
      some (.quantity ⟨magnitude, none⟩, rest) := by
  have h := readNumber?_eq hw hd negative (some fraction)
    (by simpa using ⟨hf, hfd⟩) hrest.digits
  simpa [fractionText, numberOf?, hrest.readUnits?_eq_none, hm] using h

theorem readNumber?_units {fraction : List Char} {magnitude : Decimal} {units : String}
    (hfd : ∀ c ∈ fraction, c.isDigit = true) (hu : IsUnits units)
    (hm : Decimal.ofNumeral? negative whole fraction = some magnitude) (rest : List Char) :
    readNumber? (signText negative ++ (whole ++ ((if fraction = [] then [] else '.' :: fraction) ++
      (" [".toList ++ (units.toList ++ ']' :: rest))))) =
        some (.quantity ⟨magnitude, some units⟩, rest) := by
  have hunits := readUnits?_bracket hu rest
  generalize " [".toList ++ (units.toList ++ ']' :: rest) = tail at hunits ⊢
  by_cases hf : fraction = []
  · subst hf
    have h := readNumber?_eq hw hd negative none (by simp)
      (endsDigits_of_readUnits? hunits)
    simpa [fractionText, numberOf?, hunits, hm] using h
  · have h := readNumber?_eq hw hd negative (some fraction)
      (by simpa using ⟨hf, hfd⟩) (endsDigits_of_readUnits? hunits)
    simpa [fractionText, numberOf?, hunits, hm, hf] using h

end Number

theorem toList_toString_int (n : Int) : (toString n).toList =
    signText (decide (n < 0)) ++ Nat.toDigits 10 n.natAbs := by
  cases n with
  | ofNat m => simp [signText, toString, Int.repr, Nat.repr]
  | negSucc m => simp [signText, toString, Int.repr, Nat.repr, Int.negSucc_lt_zero]

theorem toList_toText_sign (d : Decimal) : d.toText.toList =
    signText (decide (d.numerator < 0)) ++ (d.wholeDigits ++
      (if d.fractionDigits = [] then [] else '.' :: d.fractionDigits)) := by
  simp [Decimal.toList_toText, signText, d.fractionDigits_eq_nil_iff]

theorem spells_integer (n : Int) {rest : List Char} (h : Follows rest) :
    Spells (.literal (.integer n)) (toString n).toList rest := by
  have hw : Nat.toDigits 10 n.natAbs ≠ [] := Nat.toDigits_ne_nil
  have hd (c : Char) (hc : c ∈ Nat.toDigits 10 n.natAbs) : c.isDigit = true :=
    Nat.isDigit_of_mem_toDigits (by decide) (by decide) hc
  have hn : readNumber? (signText (decide (n < 0)) ++ (Nat.toDigits 10 n.natAbs ++ rest)) = _ :=
    readNumber?_integer hw hd h.endsNumber
  rw [Decimal.ofDigits_toDigits] at hn
  have hvalue : (if decide (n < 0) = true then -(n.natAbs : Int) else n.natAbs) = n := by
    by_cases hneg : n < 0
    · simp only [hneg, decide_true, if_true]; omega
    · simp only [hneg, decide_false, Bool.false_eq_true, if_false]; omega
  rw [hvalue] at hn
  rw [toList_toString_int, ← List.append_nil (Nat.toDigits 10 n.natAbs)]
  exact spells_number hw hd (by simpa using hn)

theorem spells_quantity {q : Quantity} (hq : (Literal.quantity q).IsWritable) {rest : List Char}
    (h : Follows rest) :
    Spells (.literal (Literal.quantity q).reread) q.canonical.toList rest := by
  obtain ⟨d, units⟩ := q
  have hw := d.wholeDigits_ne_nil
  have hd := fun c => d.isDigit_of_mem_wholeDigits (c := c)
  have hfd := fun c => d.isDigit_of_mem_fractionDigits (c := c)
  cases units with
  | some units =>
    have htext : (Quantity.canonical ⟨d, some units⟩).toList =
        signText (decide (d.numerator < 0)) ++ (d.wholeDigits ++
          ((if d.fractionDigits = [] then [] else '.' :: d.fractionDigits) ++
            (" [".toList ++ (units.toList ++ [']'])))) := by
      simp [Quantity.canonical, toList_toText_sign]
    have hn := readNumber?_units hw hd hfd hq d.ofNumeral?_digits rest
    rw [htext]
    exact spells_number hw hd (by simpa [Literal.reread] using hn)
  | none =>
    by_cases hscale : d.scale = 0
    · have hf := d.fractionDigits_eq_nil_iff.mpr hscale
      have htext : (Quantity.canonical ⟨d, none⟩).toList =
          signText (decide (d.numerator < 0)) ++ (d.wholeDigits ++ '.' :: ['0']) := by
        simp [Quantity.canonical, toList_toText_sign, hscale, hf]
      have hn := readNumber?_decimal hw hd (by simp) (by simp) h.endsNumber
        (Decimal.ofNumeral?_zero_fraction hscale)
      rw [htext]
      exact spells_number hw hd (by simpa [Literal.reread] using hn)
    · have hf := mt d.fractionDigits_eq_nil_iff.mp hscale
      have htext : (Quantity.canonical ⟨d, none⟩).toList =
          signText (decide (d.numerator < 0)) ++ (d.wholeDigits ++ '.' :: d.fractionDigits) := by
        simp [Quantity.canonical, toList_toText_sign, hscale, hf]
      have hn := readNumber?_decimal hw hd hf hfd h.endsNumber d.ofNumeral?_digits
      rw [htext]
      exact spells_number hw hd (by
        simpa [Literal.reread, Decimal.pointed_of_scale_ne_zero hscale] using hn)

/-- The canonical text of a constant is read as the constant. -/
theorem spells_literal {l : Literal} (hl : l.IsWritable) {rest : List Char} (h : Follows rest) :
    Spells (.literal l.reread) l.canonical.toList rest := by
  have hword : Heads (fun c => !isWordChar c) rest := h.heads (by decide)
  have hreference (name : String) {literal : String → Literal} {id : String}
      (hid : IsReferenceId id)
      (hsort : (name = "entry/" ∧ literal = (.entry ⟨·⟩)) ∨
        (name = "prop/" ∧ literal = (.property ⟨·⟩)) ∨
        (name = "etype/" ∧ literal = (.entryType ⟨·⟩))) :
      Spells (.literal (literal id)) ("[[/" ++ name ++ id ++ "]]").toList rest := by
    refine spells_reference (by simp) ?_
    have := readReference?_sort hid rest literal hsort
    simpa using this
  cases l with
  | null => exact spells_word 'n' "ull".toList (by decide) (List.all_eq_true.mp rfl) hword
  | boolean b =>
    cases b with
    | false => exact spells_word 'f' "alse".toList (by decide) (List.all_eq_true.mp rfl) hword
    | true => exact spells_word 't' "rue".toList (by decide) (List.all_eq_true.mp rfl) hword
  | integer n => exact spells_integer n h
  | quantity q => exact spells_quantity hl h
  | string s => exact spells_string s rest
  | entry id => exact hreference "entry/" hl (.inl ⟨rfl, rfl⟩)
  | property id => exact hreference "prop/" hl (.inr (.inl ⟨rfl, rfl⟩))
  | entryType id => exact hreference "etype/" hl (.inr (.inr ⟨rfl, rfl⟩))

end Token

end GraphExpr
