import GraphExpr.Proofs.Canonical.Readable
import GraphExpr.Proofs.Canonical.RoundTrip

/-! # Canonical texts are unique

Trees that were read have different canonical texts unless they are equal. Empty units are
printed as a pair of brackets, which are tokens of their own behind a number and which nothing
else puts there.
-/

namespace GraphExpr

/-- The constant that the digits of a decimal are read as. -/
def Decimal.bare (d : Decimal) : Literal :=
  if d.scale = 0 then .integer d.numerator else .quantity ⟨d, none⟩

namespace Literal

/-- The tokens that the canonical text of a constant is cut into. -/
def printed : Literal → List Token
  | quantity ⟨magnitude, some units⟩ =>
    if units = "" then [.literal magnitude.bare, .openBracket, .closeBracket]
    else [.literal (quantity ⟨magnitude, some units⟩)]
  | l => [.literal l]

def withEmptyUnits : Literal → Literal
  | integer n =>
    match Decimal.ofInt? n with
    | some magnitude => quantity ⟨magnitude, some ""⟩
    | none => integer n
  | quantity ⟨magnitude, none⟩ => quantity ⟨magnitude, some ""⟩
  | l => l

theorem withEmptyUnits_bare (d : Decimal) : d.bare.withEmptyUnits = quantity ⟨d, some ""⟩ := by
  unfold Decimal.bare
  split
  next hs =>
    obtain ⟨n, scale, hn, hscale⟩ := d
    dsimp only at hs
    subst hs
    have hint : Decimal.ofInt? n = some ⟨n, 0, hn, hscale⟩ := dif_pos ⟨hn, hscale⟩
    simp only [withEmptyUnits, hint]
  next => rfl

theorem printed_empty (d : Decimal) :
    (quantity ⟨d, some ""⟩).printed = [.literal d.bare, .openBracket, .closeBracket] :=
  rfl

theorem printed_cases (l : Literal) :
    (∃ d, l = quantity ⟨d, some ""⟩) ∨ l.printed = [.literal l] := by
  unfold printed
  split
  next d units =>
    split
    next hu => exact .inl ⟨d, by rw [hu]⟩
    next => exact .inr rfl
  next => exact .inr rfl

theorem IsReadable.cases {l : Literal} (h : l.IsReadable) :
    (∃ d, l = quantity ⟨d, some ""⟩) ∨ (l.IsWritable ∧ l.reread = l) := by
  cases l with
  | quantity q =>
    obtain ⟨d, units⟩ := q
    cases units with
    | none =>
      refine .inr ⟨trivial, ?_⟩
      have hd : d.pointed = d := h
      rw [reread, hd]
    | some units =>
      by_cases hu : units = ""
      · exact .inl ⟨d, by rw [hu]⟩
      · exact .inr ⟨⟨hu, h⟩, rfl⟩
  | entry id => exact .inr ⟨h, rfl⟩
  | property id => exact .inr ⟨h, rfl⟩
  | entryType id => exact .inr ⟨h, rfl⟩
  | null => exact .inr ⟨trivial, rfl⟩
  | boolean b => exact .inr ⟨trivial, rfl⟩
  | integer n => exact .inr ⟨trivial, rfl⟩
  | string s => exact .inr ⟨trivial, rfl⟩

end Literal

namespace Token

theorem endsNumber_brackets (rest : List Char) : EndsNumber (" []".toList ++ rest) where
  heads := heads_cons.mpr (by decide)
  readFraction_eq := rfl
  readUnits?_eq_none := rfl

theorem spells_bare (d : Decimal) {rest : List Char} (h : EndsNumber rest) :
    Spells (.literal d.bare) d.toText.toList rest := by
  have hw := d.wholeDigits_ne_nil
  have hd := fun c => d.isDigit_of_mem_wholeDigits (c := c)
  have hfd := fun c => d.isDigit_of_mem_fractionDigits (c := c)
  rw [toList_toText_sign]
  unfold Decimal.bare
  by_cases hscale : d.scale = 0
  · rw [if_pos hscale, if_pos (d.fractionDigits_eq_nil_iff.mpr hscale)]
    have hn : readNumber? (signText (decide (d.numerator < 0)) ++ (d.wholeDigits ++ rest)) = _ :=
      readNumber?_integer hw hd h
    have hvalue : (if decide (d.numerator < 0) = true then -(d.numerator.natAbs : Int)
        else d.numerator.natAbs) = d.numerator := by
      by_cases hneg : d.numerator < 0
      · simp only [hneg, decide_true, if_true]; omega
      · simp only [hneg, decide_false, Bool.false_eq_true, if_false]; omega
    rw [d.ofDigits_wholeDigits_of_integral hscale, hvalue] at hn
    exact spells_number hw hd (by simpa using hn)
  · have hf := mt d.fractionDigits_eq_nil_iff.mp hscale
    rw [if_neg hscale, if_neg hf]
    have hn := readNumber?_decimal hw hd hf hfd h d.ofNumeral?_digits
    exact spells_number hw hd (by simpa using hn)

theorem reads_empty (d : Decimal) :
    Reads (Literal.quantity ⟨d, some ""⟩).canonical.toList
      (Literal.quantity ⟨d, some ""⟩).printed := by
  intro rest us hf hrest
  rw [Literal.printed_empty]
  have hclose := lexes_symbol (c := ']') (by decide) rfl hrest
  have hslash : stripStart? "[/".toList (']' :: rest) = none := by simp [stripStart?]
  have hopen := (spells_openBracket hslash).lexes hclose
  have hread := (spells_bare d (endsNumber_brackets rest)).lexes (Lexes.blank (c := ' ') rfl hopen)
  simpa [Literal.canonical, Quantity.canonical] using hread

theorem unslashed_empty (d : Decimal) :
    Unslashed (Literal.quantity ⟨d, some ""⟩).canonical.toList := by
  have htext := (spells_bare d Follows.nil.endsNumber).unslashed.append " []".toList
  simpa [Literal.canonical, Quantity.canonical] using htext

theorem spelled_readable : Spelled Literal.IsReadable Literal.printed where
  reads l hl := by
    rcases hl.cases with ⟨d, rfl⟩ | ⟨hw, hr⟩
    · exact reads_empty d
    · intro rest us hf hrest
      have hread := (spells_literal hw hf).lexes hrest
      rw [hr] at hread
      rcases l.printed_cases with ⟨d, rfl⟩ | hp
      · exact absurd rfl hw.1
      · rw [hp]
        exact hread
  unslashed l hl := by
    rcases hl.cases with ⟨d, rfl⟩ | ⟨hw, -⟩
    · exact unslashed_empty d
    · exact unslashed_literal hw

/-- The tokens with the brackets behind a number turned into empty units. -/
def regroup : List Token → List Token
  | .literal l :: .openBracket :: .closeBracket :: rest =>
    .literal l.withEmptyUnits :: regroup rest
  | t :: rest => t :: regroup rest
  | [] => []

theorem regroup_cons {t : Token} (rest : List Token) (h : ∀ l, t ≠ .literal l) :
    regroup (t :: rest) = t :: regroup rest := by
  rw [regroup]
  intro l rest' ht
  exact absurd ht (h l)

theorem regroup_literal (l : Literal) {rest : List Token} (h : rest.head? ≠ some .openBracket) :
    regroup (.literal l :: rest) = .literal l :: regroup rest := by
  rw [regroup]
  rintro l rest' - rfl
  exact h rfl

theorem regroup_printed (l : Literal) {rest : List Token} (h : rest.head? ≠ some .openBracket) :
    regroup (l.printed ++ rest) = .literal l :: regroup rest := by
  rcases l.printed_cases with ⟨d, rfl⟩ | hp
  · rw [Literal.printed_empty, ← Literal.withEmptyUnits_bare]
    rfl
  · rw [hp]
    exact regroup_literal l h

theorem regroup_intercalate {α : Type} {l : List α} {ts us : α → List Token}
    (h : ∀ a ∈ l, ∀ rest, rest.head? ≠ some .openBracket →
      regroup (ts a ++ rest) = us a ++ regroup rest)
    (rest : List Token) (hrest : rest.head? ≠ some .openBracket) :
    regroup ([Token.comma].intercalate (l.map ts) ++ rest) =
      [Token.comma].intercalate (l.map us) ++ regroup rest := by
  induction l with
  | nil => rfl
  | cons a l ih =>
    obtain ⟨ha, hl⟩ := List.forall_mem_cons.mp h
    cases l with
    | nil => simpa using ha rest hrest
    | cons b l =>
      have hmore := ih hl
      simp only [List.map_cons, List.intercalate_cons_cons, List.append_assoc,
        List.nil_append, List.cons_append] at hmore ⊢
      rw [ha _ (by simp), regroup_cons _ (by simp), hmore]

end Token

namespace Expr

open Token Grammar

/-- The tokens of the canonical text tell the constants apart from what is around them. -/
theorem regroup_tokens (e : Expr) : ∀ rest, rest.head? ≠ some .openBracket →
    regroup (e.tokens Literal.printed ++ rest) =
      e.tokens (fun l => [.literal l]) ++ regroup rest := by
  induction e using nestedInduction with
  | literal value => exact fun rest hrest => regroup_printed value hrest
  | list items ih =>
    intro rest hrest
    have hitems := regroup_intercalate ih (.closeBracket :: rest) (by simp)
    simp only [tokens, tokensItems_eq, List.cons_append, List.append_assoc, List.nil_append]
    rw [regroup_cons _ (by simp), hitems, regroup_cons _ (by simp)]
  | this => exact fun rest _ => regroup_cons rest (by simp)
  | var name => exact fun rest _ => regroup_cons rest (by simp)
  | lambda parameter body ih =>
    intro rest hrest
    simp only [tokens, List.cons_append, List.append_assoc, List.nil_append]
    rw [regroup_cons _ (by simp), regroup_cons _ (by simp), regroup_cons _ (by simp),
      ih _ (by simp), regroup_cons _ (by simp)]
  | access object name ih =>
    intro rest hrest
    simp only [tokens, List.cons_append, List.append_assoc, List.nil_append]
    rw [ih _ (by simp), regroup_cons _ (by simp), regroup_cons _ (by simp)]
  | call f positional named ihp ihn =>
    intro rest hrest
    have hnamed (a) (ha : a ∈ named) : ∀ rest, rest.head? ≠ some .openBracket →
        regroup ((.identifier a.1 :: .assign :: a.2.tokens Literal.printed) ++ rest) =
          (.identifier a.1 :: .assign :: a.2.tokens fun l => [.literal l]) ++ regroup rest := by
      intro rest hrest
      simp only [List.cons_append]
      rw [regroup_cons _ (by simp), regroup_cons _ (by simp), ihn a ha _ hrest]
    cases positional with
    | none =>
      simp only [tokens, List.cons_append, List.nil_append]
      rw [regroup_cons _ (by simp), regroup_cons _ (by simp), regroup_cons _ (by simp)]
    | some x =>
      by_cases hx : x.prefersDot = true
      · have hargs := regroup_intercalate hnamed (.closeParen :: rest) (by simp)
        simp only [tokens, tokensNamed_eq, hx, if_true, List.cons_append, List.append_assoc,
          List.nil_append]
        rw [ihp x rfl _ (by simp), regroup_cons _ (by simp), regroup_cons _ (by simp),
          regroup_cons _ (by simp), hargs, regroup_cons _ (by simp)]
      · have hall : ∀ p ∈ (x.tokens Literal.printed, x.tokens fun l => [.literal l]) ::
            named.map (fun a => (.identifier a.1 :: .assign :: a.2.tokens Literal.printed,
              .identifier a.1 :: .assign :: a.2.tokens fun l => [.literal l])),
            ∀ rest, rest.head? ≠ some .openBracket →
              regroup (p.1 ++ rest) = p.2 ++ regroup rest := by
          simp only [List.forall_mem_cons, List.forall_mem_map]
          exact ⟨ihp x rfl, hnamed⟩
        have hargs := regroup_intercalate hall (.closeParen :: rest) (by simp)
        simp only [List.map_cons, List.map_map, Function.comp_def] at hargs
        simp only [tokens, tokensNamed_eq, hx, Bool.false_eq_true, if_false, List.cons_append,
          List.append_assoc, List.nil_append]
        rw [regroup_cons _ (by simp), regroup_cons _ (by simp), hargs, regroup_cons _ (by simp)]

/-- Trees that were read are equal if their canonical texts are. -/
theorem Formed.eq_of_canonical {registry : Registry} {e₁ e₂ : Expr}
    (h₁ : Formed Literal.IsReadable registry e₁) (h₂ : Formed Literal.IsReadable registry e₂)
    (h : e₁.canonical = e₂.canonical) : e₁ = e₂ := by
  obtain ⟨l₁, hread₁, ht₁⟩ := Lexes.readAll (s := e₁.canonical)
    (by simpa using h₁.reads spelled_readable [] [] .nil .nil)
  obtain ⟨l₂, hread₂, ht₂⟩ := Lexes.readAll (s := e₂.canonical)
    (by simpa using h₂.reads spelled_readable [] [] .nil .nil)
  rw [h, hread₂] at hread₁
  cases hread₁
  have htokens : e₁.tokens (fun l => [.literal l]) = e₂.tokens (fun l => [.literal l]) := by
    have hg₁ := regroup_tokens e₁ [] (by simp)
    have hg₂ := regroup_tokens e₂ [] (by simp)
    simp only [List.append_nil, regroup] at hg₁ hg₂
    rw [← hg₁, ← hg₂, ← ht₁, ← ht₂]
  have hd₁ := (h₁.derives (f := id)).parse
  have hd₂ := (h₂.derives (f := id)).parse
  simp only [id, mapLiterals_id] at hd₁ hd₂
  rw [htokens, hd₂] at hd₁
  cases hd₁
  rfl

end Expr

end GraphExpr
