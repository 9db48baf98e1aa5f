import Mathlib.Logic.Relation
import GraphExpr.Proofs.Grammar.Repetition

/-! # Fatal errors

The run of a parser tries its parts at places that it comes to. A fatal error of any of these
attempts, however deep, is the error of the whole run, unless a list tries a separator on the way:
a list ends where its separator fails, whatever the error. The separators of the grammar of
expressions have no fatal errors.
-/

namespace GraphExpr.Parser

/-- What stands around a part of a parser: no recursive parser, or one that may be entered so many
times more. -/
inductive Surroundings (ι : Type) : Type → Type 1 where
  | none {ρ : Type} : Surroundings ι ρ
  | recursive {ρ : Type} (body : Parser ι ρ ρ) (depth : Nat) : Surroundings ι ρ

structure Attempt (ι : Type) where
  {ρ : Type}
  {α : Type}
  parser : Parser ι ρ α
  around : Surroundings ι ρ
  position : Nat

section Runs

variable {ι : Type} (shown : ι → String) (input : Array ι)

def Surroundings.again {ρ : Type} : Surroundings ι ρ → Nat → Outcome ρ
  | .none => fun _ => .endless
  | .recursive body depth => recurFor (fun again q => run shown input body again q) depth

def Surroundings.run {ρ α : Type} (around : Surroundings ι ρ) (parser : Parser ι ρ α) :
    Nat → Outcome α :=
  Parser.run shown input parser (around.again shown input)

def Attempt.outcome (a : Attempt ι) : Outcome a.α :=
  a.around.run shown input a.parser a.position

def Attempt.FailsWith (a : Attempt ι) (error : ParseError) : Prop :=
  a.outcome shown input = .failure error

/-- The first attempt tries the second one, and not as a separator. -/
inductive Attempt.Part : Attempt ι → Attempt ι → Prop where
  | alternative {ρ α : Type} {around : Surroundings ι ρ} {p count : Nat}
      {alternative : Fin count → Parser ι ρ α} (i : Fin count)
      (hbefore : ∀ j < i, (around.run shown input (alternative j) p).Refuses) :
      Part ⟨.choice count alternative, around, p⟩ ⟨alternative i, around, p⟩
  | precededFirst {ρ α β : Type} {around : Surroundings ι ρ} {p : Nat} {first : Parser ι ρ α}
      {second : Parser ι ρ β} : Part ⟨.preceded first second, around, p⟩ ⟨first, around, p⟩
  | precededSecond {ρ α β : Type} {around : Surroundings ι ρ} {p q : Nat} {first : Parser ι ρ α}
      {second : Parser ι ρ β} {a : α} (hfirst : around.run shown input first p = .success q a) :
      Part ⟨.preceded first second, around, p⟩ ⟨second, around, q⟩
  | map {ρ α β : Type} {around : Surroundings ι ρ} {p : Nat} {f : α → β} {inner : Parser ι ρ α} :
      Part ⟨.map f inner, around, p⟩ ⟨inner, around, p⟩
  | tryMap {ρ α β : Type} {around : Surroundings ι ρ} {p : Nat}
      {f : α → Nat → Except ParseError β} {inner : Parser ι ρ α} :
      Part ⟨.tryMap f inner, around, p⟩ ⟨inner, around, p⟩
  | repeated {ρ α : Type} {around : Surroundings ι ρ} {n p q : Nat} {inner : Parser ι ρ α}
      (hleads : Leads (Proceeds (around.run shown input inner)) n p q) :
      Part ⟨.many inner, around, p⟩ ⟨inner, around, q⟩
  | firstItem {ρ α : Type} {around : Surroundings ι ρ} {p : Nat} {item : Parser ι ρ α}
      {separator : Parser ι ρ Unit} :
      Part ⟨.separated item separator, around, p⟩ ⟨item, around, p⟩
  | item {ρ α : Type} {around : Surroundings ι ρ} {p q r : Nat} {item : Parser ι ρ α}
      {separator : Parser ι ρ Unit}
      (hbehind : Behind (around.run shown input item) (around.run shown input separator) p q)
      (hseparator : around.run shown input separator q = .success r ()) :
      Part ⟨.separated item separator, around, p⟩ ⟨item, around, r⟩
  | optional {ρ α : Type} {around : Surroundings ι ρ} {p : Nat} {inner : Parser ι ρ α} :
      Part ⟨.optional inner, around, p⟩ ⟨inner, around, p⟩
  | pairFirst {ρ α β : Type} {around : Surroundings ι ρ} {p : Nat} {first : Parser ι ρ α}
      {second : Parser ι ρ β} : Part ⟨.pair first second, around, p⟩ ⟨first, around, p⟩
  | pairSecond {ρ α β : Type} {around : Surroundings ι ρ} {p q : Nat} {first : Parser ι ρ α}
      {second : Parser ι ρ β} {a : α} (hfirst : around.run shown input first p = .success q a) :
      Part ⟨.pair first second, around, p⟩ ⟨second, around, q⟩
  | tripleFirst {ρ α β γ : Type} {around : Surroundings ι ρ} {p : Nat} {first : Parser ι ρ α}
      {second : Parser ι ρ β} {third : Parser ι ρ γ} :
      Part ⟨.triple first second third, around, p⟩ ⟨first, around, p⟩
  | tripleSecond {ρ α β γ : Type} {around : Surroundings ι ρ} {p q : Nat} {first : Parser ι ρ α}
      {second : Parser ι ρ β} {third : Parser ι ρ γ} {a : α}
      (hfirst : around.run shown input first p = .success q a) :
      Part ⟨.triple first second third, around, p⟩ ⟨second, around, q⟩
  | tripleThird {ρ α β γ : Type} {around : Surroundings ι ρ} {p q r : Nat} {first : Parser ι ρ α}
      {second : Parser ι ρ β} {third : Parser ι ρ γ} {a : α} {b : β}
      (hfirst : around.run shown input first p = .success q a)
      (hsecond : around.run shown input second q = .success r b) :
      Part ⟨.triple first second third, around, p⟩ ⟨third, around, r⟩
  | left {ρ α : Type} {around : Surroundings ι ρ} {p : Nat} {left right : Parser ι ρ Unit}
      {inner : Parser ι ρ α} : Part ⟨.delimited left inner right, around, p⟩ ⟨left, around, p⟩
  | delimited {ρ α : Type} {around : Surroundings ι ρ} {p q : Nat} {left right : Parser ι ρ Unit}
      {inner : Parser ι ρ α} (hleft : around.run shown input left p = .success q ()) :
      Part ⟨.delimited left inner right, around, p⟩ ⟨inner, around, q⟩
  | right {ρ α : Type} {around : Surroundings ι ρ} {p q r : Nat} {left right : Parser ι ρ Unit}
      {inner : Parser ι ρ α} {a : α} (hleft : around.run shown input left p = .success q ())
      (hinner : around.run shown input inner q = .success r a) :
      Part ⟨.delimited left inner right, around, p⟩ ⟨right, around, r⟩
  | within {ρ α : Type} {around : Surroundings ι ρ} {p : Nat} {name : String}
      {inner : Parser ι ρ α} : Part ⟨.within name inner, around, p⟩ ⟨inner, around, p⟩
  | recur {ρ : Type} {body : Parser ι ρ ρ} {depth p : Nat} :
      Part ⟨.recur, .recursive body (depth + 1), p⟩ ⟨body, .recursive body depth, p⟩
  | recursive {ρ α : Type} {around : Surroundings ι ρ} {p : Nat} {body : Parser ι α α} :
      Part ⟨.recursive body, around, p⟩ ⟨body, .recursive body (input.size - p), p⟩

/-- The first attempt is a list that tries the second one as a separator behind an item. -/
inductive Attempt.Separator : Attempt ι → Attempt ι → Prop where
  | behind {ρ α : Type} {around : Surroundings ι ρ} {p q : Nat} {item : Parser ι ρ α}
      {separator : Parser ι ρ Unit}
      (hbehind : Behind (around.run shown input item) (around.run shown input separator) p q) :
      Separator ⟨.separated item separator, around, p⟩ ⟨separator, around, q⟩

/-- The first attempt tries the second one, at whatever depth. -/
def Attempt.Tries : Attempt ι → Attempt ι → Prop :=
  Relation.ReflTransGen fun a b => Attempt.Part shown input a b ∨ Attempt.Separator shown input a b

/-- On the way from the first attempt to the second one, a list ends as its separator fails with the
error. -/
def Attempt.Swallows (whole inner : Attempt ι) (error : ParseError) : Prop :=
  ∃ list separator, Tries shown input whole list ∧ Separator shown input list separator ∧
    Tries shown input separator inner ∧ separator.FailsWith shown input error ∧
    ∃ values, list.outcome shown input = .success separator.position values

end Runs

/-! ### Errors of parts -/

theorem within_of_isFatal {error : ParseError} (h : error.isFatal = true) (name : String) :
    error.within name = error := by
  cases error with
  | unknownFunction | invalidArguments | reservedIdentifier => rfl
  | _ => cases h

section Parts

variable {ι ρ α β : Type} {shown : ι → String} {input : Array ι} {again : Nat → Outcome ρ}
  {p q : Nat} {error : ParseError} {inner : Parser ι ρ α} {separator : Parser ι ρ Unit}

theorem Outcome.andThen_of_success {outcome : Outcome α} {next : Nat → α → Outcome β} {a : α}
    (h : outcome = .success q a) : outcome.andThen next = next q a := by
  rw [h, andThen]

theorem Outcome.andThen_of_failure {outcome : Outcome α} {next : Nat → α → Outcome β}
    (h : outcome = .failure error) : outcome.andThen next = .failure error := by
  rw [h, andThen]

theorem run_optional_of_failure (h : run shown input inner again p = .failure error)
    (herror : error.isFatal = true) :
    run shown input (.optional inner) again p = .failure error := by
  rw [run_optional_eq, h]
  simp only [herror, if_true]

theorem run_within_of_failure {name : String} (h : run shown input inner again p = .failure error)
    (herror : error.isFatal = true) :
    run shown input (.within name inner) again p = .failure error := by
  rw [run_within_eq, h]
  simp only [within_of_isFatal herror]

theorem run_separated_of_failure (h : run shown input inner again p = .failure error)
    (herror : error.isFatal = true) :
    run shown input (.separated inner separator) again p = .failure error := by
  rw [run_separated_eq, h]
  simp only [herror, if_true]

theorem run_separated_of_success {a : α} (h : run shown input inner again p = .success q a) :
    run shown input (.separated inner separator) again p =
      (separatedFor (run shown input inner again) (run shown input separator again)
        (roundsFrom input q) q).andThen fun stop values => .success stop (a :: values) := by
  rw [run_separated_eq, h]

end Parts

/-! ### Repetitions -/

section Repetition

variable {ι α : Type} {input : Array ι} {step item : Nat → Outcome α} {between : Nat → Outcome Unit}
  {n p q r rounds : Nat} {error : ParseError}

theorem Leads.repeatFor_failure (h : Leads (Proceeds step) n p q) (hn : n < rounds)
    (hq : step q = .failure error) (herror : error.isFatal = true) :
    repeatFor step rounds p = .failure error := by
  obtain ⟨values, hrounds⟩ := h.repeatFor_eq
  obtain ⟨left, rfl⟩ : ∃ left, rounds = left + 1 + n := ⟨rounds - n - 1, by omega⟩
  rw [hrounds, repeatFor, hq]
  simp only [herror, if_true, Outcome.andThen]

theorem Leads.separatedFor_failure (h : Leads (Continues item between) n p q) (hn : n < rounds)
    (hseparator : between q = .success r ()) (hitem : item r = .failure error)
    (herror : error.isFatal = true) : separatedFor item between rounds p = .failure error := by
  obtain ⟨values, hrounds⟩ := h.separatedFor_eq
  obtain ⟨left, rfl⟩ : ∃ left, rounds = left + 1 + n := ⟨rounds - n - 1, by omega⟩
  rw [hrounds, separatedFor, hseparator]
  simp only [hitem, herror, if_true, Outcome.andThen]

theorem Leads.separatedFor_success (h : Leads (Continues item between) n p q) (hn : n < rounds)
    (hseparator : between q = .failure error) :
    ∃ values, separatedFor item between rounds p = .success q values := by
  obtain ⟨values, hrounds⟩ := h.separatedFor_eq
  obtain ⟨left, rfl⟩ : ∃ left, rounds = left + 1 + n := ⟨rounds - n - 1, by omega⟩
  exact ⟨values ++ [], by rw [hrounds, separatedFor, hseparator, Outcome.andThen]⟩

end Repetition

/-! ### Attempts -/

section Attempts

variable {ι : Type} {shown : ι → String} {input : Array ι} {error : ParseError}

theorem Surroundings.advances {ρ : Type} (around : Surroundings ι ρ) :
    Advances input.size (around.again shown input) := by
  cases around with
  | none => nofun
  | recursive body depth => exact advances_recurFor (fun _ => advances_run body) depth

theorem Surroundings.advances_run {ρ α : Type} (around : Surroundings ι ρ)
    (parser : Parser ι ρ α) : Advances input.size (around.run shown input parser) :=
  Parser.advances_run parser around.advances

namespace Attempt

variable {whole inner a b : Attempt ι}

/-- A fatal error of a part is that of the attempt, with no rule added to it. -/
theorem Part.failsWith (h : Part shown input a b) (hb : b.FailsWith shown input error)
    (herror : error.isFatal = true) : a.FailsWith shown input error := by
  cases h with
  | alternative i hbefore =>
    refine (chooseFrom_of_refuses i hbefore ?_ none).trans hb
    -- A fatal error is not one with which an alternative makes way for the next.
    rintro ⟨other, hother, hrefuses⟩
    cases hb.symm.trans hother
    exact absurd herror (by simp [hrefuses])
  | precededFirst => exact Outcome.andThen_of_failure hb
  | precededSecond hfirst => exact (Outcome.andThen_of_success hfirst).trans hb
  | map => exact Outcome.andThen_of_failure hb
  | tryMap => exact Outcome.andThen_of_failure hb
  | @repeated _ _ around n p q inner hleads =>
    have hadvances : Advances input.size (around.run shown input inner) :=
      around.advances_run inner
    obtain ⟨m, hm, hleads⟩ := hleads.bounded fun p q ⟨hlt, a, ha⟩ => hadvances p q a ha
    exact hleads.repeatFor_failure hm hb herror
  | firstItem => exact run_separated_of_failure hb herror
  | @item _ _ around _ _ _ item separator hbehind hseparator =>
    obtain ⟨start, value, n, hn, hstart, hleads⟩ :=
      hbehind.bounded (around.advances_run item) (around.advances_run separator)
    have hrest := hleads.separatedFor_failure hn hseparator hb herror
    exact (run_separated_of_success hstart).trans (Outcome.andThen_of_failure hrest)
  | optional => exact run_optional_of_failure hb herror
  | pairFirst => exact Outcome.andThen_of_failure hb
  | pairSecond hfirst =>
    exact (Outcome.andThen_of_success hfirst).trans (Outcome.andThen_of_failure hb)
  | tripleFirst => exact Outcome.andThen_of_failure hb
  | tripleSecond hfirst =>
    exact (Outcome.andThen_of_success hfirst).trans (Outcome.andThen_of_failure hb)
  | tripleThird hfirst hsecond =>
    exact (Outcome.andThen_of_success hfirst).trans
      ((Outcome.andThen_of_success hsecond).trans (Outcome.andThen_of_failure hb))
  | left => exact Outcome.andThen_of_failure hb
  | delimited hleft =>
    exact (Outcome.andThen_of_success hleft).trans (Outcome.andThen_of_failure hb)
  | right hleft hinner =>
    exact (Outcome.andThen_of_success hleft).trans
      ((Outcome.andThen_of_success hinner).trans (Outcome.andThen_of_failure hb))
  | within => exact run_within_of_failure hb herror
  | recur => exact hb
  | recursive => exact hb

/-- A list ends where its separator fails, whatever the error. -/
theorem Separator.outcome_eq (h : Separator shown input a b)
    (hb : b.FailsWith shown input error) :
    ∃ values, a.outcome shown input = .success b.position values := by
  cases h with
  | @behind _ _ around _ _ item separator hbehind =>
    obtain ⟨start, value, n, hn, hstart, hleads⟩ :=
      hbehind.bounded (around.advances_run item) (around.advances_run separator)
    obtain ⟨values, hrest⟩ := hleads.separatedFor_success hn hb
    exact ⟨value :: values,
      (run_separated_of_success hstart).trans (Outcome.andThen_of_success hrest)⟩

/-- A fatal error of anything that is tried is the error of the whole run, unless a list on the way
swallows it as an error of its separator. By induction on the way from the whole run to what
fails. -/
theorem failsWith_of_tries (htries : Tries shown input whole inner)
    (hinner : inner.FailsWith shown input error) (herror : error.isFatal = true) :
    whole.FailsWith shown input error ∨ Swallows shown input whole inner error := by
  induction htries using Relation.ReflTransGen.head_induction_on with
  | refl => exact .inl hinner
  | @head a b hab hb ih =>
    rcases ih with hfails | ⟨list, separator, hlist, hseparator⟩
    · rcases hab with hpart | hseparator
      · exact .inl (hpart.failsWith hfails herror)
      · exact .inr ⟨a, b, .refl, hseparator, hb, hfails, hseparator.outcome_eq hfails⟩
    · exact .inr ⟨list, separator, .head hab hlist, hseparator⟩

def digit : Parser Char Empty Char :=
  .satisfy "digit" fun c => if c.isDigit then some c else none

/-- A digit, the digit two being a fatal error. -/
def digitButTwo : Parser Char Empty Char :=
  .tryMap (fun c p => if c = '2' then .error (.unknownFunction "2" p) else .ok c) digit

/-- The error of the second digit comes through a repetition and an option. -/
theorem failsWith_of_tries_repeated :
    Tries String.singleton #['1', '2'] ⟨.optional (.many digitButTwo), .none, 0⟩
      ⟨digitButTwo, .none, 1⟩ ∧
    FailsWith String.singleton #['1', '2'] ⟨digitButTwo, .none, 1⟩ (.unknownFunction "2" 1) ∧
    (FailsWith String.singleton #['1', '2'] ⟨.optional (.many digitButTwo), .none, 0⟩
        (.unknownFunction "2" 1) ∨
      Swallows String.singleton #['1', '2'] ⟨.optional (.many digitButTwo), .none, 0⟩
        ⟨digitButTwo, .none, 1⟩ (.unknownFunction "2" 1)) := by
  have hrepeated : Part String.singleton #['1', '2'] ⟨.many digitButTwo, .none, 0⟩
      ⟨digitButTwo, .none, 1⟩ := .repeated (.head ⟨Nat.zero_lt_one, '1', rfl⟩ .refl)
  have htries : Tries String.singleton #['1', '2'] ⟨.optional (.many digitButTwo), .none, 0⟩
      ⟨digitButTwo, .none, 1⟩ := .head (.inl .optional) (.single (.inl hrepeated))
  have hfails : FailsWith String.singleton #['1', '2'] ⟨digitButTwo, .none, 1⟩
      (.unknownFunction "2" 1) := rfl
  exact ⟨htries, hfails, failsWith_of_tries htries hfails rfl⟩

/-- The error of a separator is swallowed: the list ends in front of it. -/
theorem success_of_separator_failsWith :
    Tries String.singleton #['1', '2'] ⟨.separated digit (ignored digitButTwo), .none, 0⟩
      ⟨ignored digitButTwo, .none, 1⟩ ∧
    FailsWith String.singleton #['1', '2'] ⟨ignored digitButTwo, .none, 1⟩
      (.unknownFunction "2" 1) ∧
    (ParseError.unknownFunction "2" 1).isFatal = true ∧
    Parser.parse (.separated digit (ignored digitButTwo)) String.singleton #['1', '2'] 0 =
      .success 1 ['1'] :=
  ⟨.single (.inr (.behind ⟨1, '1', 0, rfl, .refl⟩)), rfl, rfl, rfl⟩

end Attempt

end Attempts

/-! ### Separators without fatal errors -/

section Mild

variable {ι : Type}

/-- No error of the parser is fatal, wherever it runs. -/
def Mild {ρ α : Type} (parser : Parser ι ρ α) : Prop :=
  ∀ shown input again p error, run shown input parser again p = .failure error →
    error.isFatal = false

/-- No separator of a list in the parser has fatal errors. -/
def MildSeparators : {ρ α : Type} → Parser ι ρ α → Prop
  | _, _, .satisfy _ _ => True
  | _, _, .choice _ alternative => ∀ i, MildSeparators (alternative i)
  | _, _, .preceded first second => MildSeparators first ∧ MildSeparators second
  | _, _, .map _ inner => MildSeparators inner
  | _, _, .tryMap _ inner => MildSeparators inner
  | _, _, .many inner => MildSeparators inner
  | _, _, .separated item separator =>
    MildSeparators item ∧ MildSeparators separator ∧ Mild separator
  | _, _, .optional inner => MildSeparators inner
  | _, _, .pair first second => MildSeparators first ∧ MildSeparators second
  | _, _, .triple first second third =>
    MildSeparators first ∧ MildSeparators second ∧ MildSeparators third
  | _, _, .delimited left inner right =>
    MildSeparators left ∧ MildSeparators inner ∧ MildSeparators right
  | _, _, .within _ inner => MildSeparators inner
  | _, _, .recur => True
  | _, _, .recursive body => MildSeparators body

def Surroundings.MildSeparators {ρ : Type} : Surroundings ι ρ → Prop
  | .none => True
  | .recursive body _ => body.MildSeparators

namespace Attempt

variable {shown : ι → String} {input : Array ι} {error : ParseError} {whole inner a b : Attempt ι}

def MildSeparators (a : Attempt ι) : Prop :=
  a.parser.MildSeparators ∧ a.around.MildSeparators

theorem Part.mildSeparators (h : Part shown input a b) (ha : a.MildSeparators) :
    b.MildSeparators := by
  obtain ⟨hparser, haround⟩ := ha
  cases h with
  | alternative i => exact ⟨hparser i, haround⟩
  | precededFirst | pairFirst | tripleFirst | firstItem | item | left =>
    exact ⟨hparser.1, haround⟩
  | precededSecond | pairSecond => exact ⟨hparser.2, haround⟩
  | tripleSecond | delimited => exact ⟨hparser.2.1, haround⟩
  | tripleThird | right => exact ⟨hparser.2.2, haround⟩
  | map | tryMap | repeated | optional | within => exact ⟨hparser, haround⟩
  | recur => exact ⟨haround, haround⟩
  | recursive => exact ⟨hparser, hparser⟩

theorem Separator.mildSeparators (h : Separator shown input a b) (ha : a.MildSeparators) :
    b.MildSeparators := by
  cases h
  exact ⟨ha.1.2.1, ha.2⟩

theorem Separator.isFatal (h : Separator shown input a b) (ha : a.MildSeparators)
    (hb : b.FailsWith shown input error) : error.isFatal = false := by
  cases h
  exact ha.1.2.2 _ _ _ _ _ hb

/-- Without fatal errors of separators nothing is swallowed. -/
theorem failsWith_of_mildSeparators (htries : Tries shown input whole inner)
    (hwhole : whole.MildSeparators) (hinner : inner.FailsWith shown input error)
    (herror : error.isFatal = true) : whole.FailsWith shown input error := by
  induction htries using Relation.ReflTransGen.head_induction_on with
  | refl => exact hinner
  | @head a b hab _ ih =>
    rcases hab with hpart | hseparator
    · exact hpart.failsWith (ih (hpart.mildSeparators hwhole)) herror
    · have hb := ih (hseparator.mildSeparators hwhole)
      exact absurd herror (by simp [hseparator.isFatal hwhole hb])

end Attempt

variable {ρ α β : Type}

theorem mild_satisfy (expected : String) (accept : ι → Option α) :
    Mild (.satisfy expected accept : Parser ι ρ α) := by
  intro shown input again p error h
  rw [run_satisfy_eq] at h
  split at h
  · cases h
    rfl
  · split at h
    · cases h
    · cases h
      rfl

theorem Mild.map {inner : Parser ι ρ α} (h : Mild inner) (f : α → β) : Mild (.map f inner) := by
  intro shown input again p error hrun
  rw [run_map_eq] at hrun
  cases hinner : run shown input inner again p with
  | failure e =>
    rw [hinner] at hrun
    cases hrun
    exact h _ _ _ _ _ hinner
  | _ => simp [hinner, Outcome.andThen] at hrun

theorem Mild.within {inner : Parser ι ρ α} (h : Mild inner) (name : String) :
    Mild (.within name inner) := by
  intro shown input again p error hrun
  rw [run_within_eq] at hrun
  split at hrun
  next e hinner =>
    cases hrun
    rw [isFatal_within, h _ _ _ _ _ hinner]
  next hinner => exact h _ _ _ _ _ hrun

theorem mildSeparators_oneOf {alternatives : List (Parser ι ρ α)}
    (h : ∀ q ∈ alternatives, q.MildSeparators) : (oneOf alternatives).MildSeparators :=
  fun i => h _ (alternatives.get_mem i)

end Mild

end GraphExpr.Parser

namespace GraphExpr.Grammar

open GraphExpr.Parser

theorem mild_comma : Mild comma :=
  ((mild_satisfy _ _).within _).map _

theorem mildSeparators_list : list.MildSeparators :=
  ⟨trivial, ⟨trivial, trivial, mild_comma⟩, trivial⟩

theorem mildSeparators_arguments : arguments.MildSeparators := by
  have hargument : argument.MildSeparators := by
    apply mildSeparators_oneOf
    simp only [List.forall_mem_cons, List.not_mem_nil, false_implies, implies_true, and_true]
    exact ⟨⟨trivial, trivial, trivial⟩, trivial⟩
  exact ⟨trivial, ⟨hargument, trivial, mild_comma⟩, trivial⟩

theorem mildSeparators_primary (registry : Registry) : (primary registry).MildSeparators := by
  apply mildSeparators_oneOf
  simp only [List.forall_mem_cons, List.not_mem_nil, false_implies, implies_true, and_true]
  exact ⟨trivial, mildSeparators_list, trivial, ⟨trivial, ⟨trivial, trivial, trivial⟩, trivial⟩,
    ⟨trivial, trivial, trivial⟩, ⟨trivial, mildSeparators_arguments⟩, trivial⟩

theorem mildSeparators_expression (registry : Registry) :
    (expression registry).MildSeparators :=
  ⟨mildSeparators_primary registry, trivial, trivial, mildSeparators_arguments⟩

/-- Every fatal error in a text of tokens is the error of the text. -/
theorem parse_eq_failure (registry : Registry) (tokens : Array Token) {inner : Attempt Token}
    {error : ParseError}
    (htries : Attempt.Tries Token.shown tokens ⟨expression registry, .none, 0⟩ inner)
    (hinner : inner.FailsWith Token.shown tokens error) (herror : error.isFatal = true) :
    (expression registry).parse Token.shown tokens 0 = .failure error :=
  Attempt.failsWith_of_mildSeparators htries ⟨mildSeparators_expression registry, trivial⟩ hinner
    herror

end GraphExpr.Grammar
