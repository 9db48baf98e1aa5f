import GraphExpr.Proofs.Grammar.Totality

/-! # Repetitions that end

No parser ends before its start. So a repetition ends that goes on only with progress. A list goes
on wherever a separator and an item behind it succeed, with progress or without: it does not end if
both of them take nothing at a place behind an item, and that is the only way not to end.
-/

namespace GraphExpr.Parser

/-! ### No way back -/

/-- A success ends no earlier than it starts, and beyond the size only if it starts there. -/
def Advances {α : Type} (size : Nat) (step : Nat → Outcome α) : Prop :=
  ∀ p q value, step p = .success q value → p ≤ q ∧ q ≤ max p size

variable {ι ρ α : Type} {shown : ι → String} {input : Array ι} {again : Nat → Outcome ρ}
  {step item : Nat → Outcome α} {between : Nat → Outcome Unit} {size p q : Nat}

theorem advances_repeatFor (h : Advances size step) (rounds : Nat) :
    Advances size (repeatFor step rounds) := by
  intro p q values hrun
  induction values generalizing rounds p with
  | nil =>
    rcases repeatFor_success hrun with ⟨-, rfl⟩ | ⟨_, _, _, _, ⟨⟩, _⟩
    omega
  | cons _ _ ih =>
    rcases repeatFor_success hrun with ⟨⟨⟩, _⟩ | ⟨rounds', r, a, as, ⟨⟩, hstep, hrest⟩
    have hr := h p r _ hstep
    have hq := ih rounds' r hrest
    omega

theorem advances_separatedFor (hitem : Advances size item) (hbetween : Advances size between)
    (rounds : Nat) : Advances size (separatedFor item between rounds) := by
  intro p q values hrun
  induction values generalizing rounds p with
  | nil =>
    rcases separatedFor_success hrun with ⟨-, rfl⟩ | ⟨-, hb⟩ | ⟨_, _, _, _, _, ⟨⟩, _⟩
    · omega
    · exact hbetween p q _ hb
  | cons _ _ ih =>
    rcases separatedFor_success hrun with ⟨⟨⟩, _⟩ | ⟨⟨⟩, _⟩ |
      ⟨rounds', r, s, a, as, ⟨⟩, hb, hi, hrest⟩
    have hr := hbetween p r _ hb
    have hs := hitem r s _ hi
    have hq := ih rounds' s hrest
    omega

theorem advances_recurFor {body : (Nat → Outcome α) → Nat → Outcome α}
    (h : ∀ again, Advances size again → Advances size (body again)) (depth : Nat) :
    Advances size (recurFor body depth) := by
  induction depth with
  | zero => nofun
  | succ depth ih => exact h _ ih

/-- By induction on the parser: each combinator goes on where a part ended, or ends at its start. -/
theorem advances_run (parser : Parser ι ρ α) (hagain : Advances input.size again) :
    Advances input.size (run shown input parser again) := by
  induction parser with
  | satisfy expected accept =>
    intro p q a h
    obtain ⟨t, ht, -, rfl⟩ := satisfy_success h
    obtain ⟨hp, -⟩ := Array.getElem?_eq_some_iff.mp ht
    omega
  | choice count alternative ih =>
    intro p q a h
    obtain ⟨i, hi⟩ := chooseFrom_success h
    exact ih i hagain p q a hi
  | preceded first second ihf ihs =>
    intro p q b h
    obtain ⟨r, a, hf, hs⟩ := preceded_success h
    have hr := ihf hagain p r _ hf
    have hq := ihs hagain r q _ hs
    omega
  | map f inner ih =>
    intro p q b h
    obtain ⟨a, ha, -⟩ := map_success h
    exact ih hagain p q a ha
  | tryMap f inner ih =>
    intro p q b h
    obtain ⟨a, ha, -⟩ := tryMap_success h
    exact ih hagain p q a ha
  | many inner ih => exact fun p => advances_repeatFor (ih hagain) _ p
  | separated item separator ihi ihs =>
    intro p q values h
    rcases separated_success h with ⟨-, rfl⟩ | ⟨rounds, r, a, as, -, hi, hrest⟩
    · omega
    · have hr := ihi hagain p r _ hi
      have hq := advances_separatedFor (ihi hagain) (ihs hagain) rounds r q _ hrest
      omega
  | optional inner ih =>
    intro p q value h
    rcases optional_success h with ⟨a, -, ha⟩ | ⟨-, rfl⟩
    · exact ih hagain p q a ha
    · omega
  | pair first second ihf ihs =>
    intro p q ab h
    obtain ⟨r, hf, hs⟩ := pair_success h
    have hr := ihf hagain p r _ hf
    have hq := ihs hagain r q _ hs
    omega
  | triple first second third ihf ihs iht =>
    intro p q abc h
    obtain ⟨r, s, hf, hs, ht⟩ := triple_success h
    have hr := ihf hagain p r _ hf
    have hs := ihs hagain r s _ hs
    have hq := iht hagain s q _ ht
    omega
  | delimited left inner right ihl ihi ihr =>
    intro p q a h
    obtain ⟨r, s, hl, hi, hr⟩ := delimited_success h
    have hl := ihl hagain p r _ hl
    have hi := ihi hagain r s _ hi
    have hr := ihr hagain s q _ hr
    omega
  | within name inner ih => exact fun p q a h => ih hagain p q a (within_success h)
  | recur => exact hagain
  | recursive body ih => exact fun p => advances_recurFor (fun _ => ih) _ p

/-! ### The places of a repetition -/

/-- So many steps lead from one place to another. -/
inductive Leads (go : Nat → Nat → Prop) : Nat → Nat → Nat → Prop where
  | refl {p : Nat} : Leads go 0 p p
  | head {n p q r : Nat} (hgo : go p q) (hrest : Leads go n q r) : Leads go (n + 1) p r

def Proceeds (step : Nat → Outcome α) (p q : Nat) : Prop :=
  p < q ∧ ∃ value, step p = .success q value

/-- A separator succeeds, and an item behind it. -/
def Continues (item : Nat → Outcome α) (between : Nat → Outcome Unit) (p r : Nat) : Prop :=
  ∃ q value, between p = .success q () ∧ item q = .success r value

/-- The list that starts at the first place comes to the second one behind an item. -/
def Behind (item : Nat → Outcome α) (between : Nat → Outcome Unit) (start q : Nat) : Prop :=
  ∃ p value n, item start = .success p value ∧ Leads (Continues item between) n p q

/-- A separator and an item succeed and take nothing. -/
def Stalls (item : Nat → Outcome α) (between : Nat → Outcome Unit) (p : Nat) : Prop :=
  between p = .success p () ∧ ∃ value, item p = .success p value

/-- Steps that go nowhere may be left out, so that the rounds from the first place on are enough. -/
theorem Leads.bounded {go : Nat → Nat → Prop} {n : Nat} (h : Leads go n p q)
    (hgo : ∀ p q, go p q → p ≤ q ∧ q ≤ max p input.size) :
    ∃ m < roundsFrom input p, Leads go m p q := by
  induction h with
  | refl => exact ⟨0, Nat.succ_pos _, .refl⟩
  | @head n p q r hpq _ ih =>
    obtain ⟨m, hm, hleads⟩ := ih
    obtain ⟨hle, hmax⟩ := hgo p q hpq
    rcases Nat.eq_or_lt_of_le hle with rfl | hlt
    · exact ⟨m, hm, hleads⟩
    · unfold roundsFrom at hm ⊢
      exact ⟨m + 1, by omega, .head hpq hleads⟩

theorem Leads.repeatFor_eq {n : Nat} (h : Leads (Proceeds step) n p q) :
    ∃ values, ∀ rounds, repeatFor step (rounds + n) p =
      (repeatFor step rounds q).andThen fun stop rest => .success stop (values ++ rest) := by
  induction h with
  | @refl p => exact ⟨[], fun rounds => by cases repeatFor step rounds p <;> rfl⟩
  | @head n p q r hgo _ ih =>
    obtain ⟨hlt, value, hstep⟩ := hgo
    obtain ⟨values, hrest⟩ := ih
    refine ⟨value :: values, fun rounds => ?_⟩
    rw [← Nat.add_assoc, repeatFor, hstep]
    simp only [if_pos hlt, hrest]
    cases repeatFor step rounds r <;> rfl

theorem Leads.separatedFor_eq {n : Nat} (h : Leads (Continues item between) n p q) :
    ∃ values, ∀ rounds, separatedFor item between (rounds + n) p =
      (separatedFor item between rounds q).andThen fun stop rest =>
        .success stop (values ++ rest) := by
  induction h with
  | @refl p => exact ⟨[], fun rounds => by cases separatedFor item between rounds p <;> rfl⟩
  | @head n p q r hgo _ ih =>
    obtain ⟨s, value, hb, hi⟩ := hgo
    obtain ⟨values, hrest⟩ := ih
    refine ⟨value :: values, fun rounds => ?_⟩
    rw [← Nat.add_assoc, separatedFor, hb]
    simp only [hi, hrest]
    cases separatedFor item between rounds r <;> rfl

theorem Continues.advances (hitem : Advances size item) (hbetween : Advances size between)
    (h : Continues item between p q) : p ≤ q ∧ q ≤ max p size := by
  obtain ⟨r, value, hb, hi⟩ := h
  have hr := hbetween p r _ hb
  have hq := hitem r q _ hi
  omega

theorem Continues.moves (hitem : Advances size item) (hbetween : Advances size between)
    (h : Continues item between p q) (hp : ¬ Stalls item between p) : p < q ∧ q ≤ size := by
  have hq := h.advances hitem hbetween
  obtain ⟨r, value, hb, hi⟩ := h
  have hr := hbetween p r _ hb
  have hrq := hitem r q _ hi
  have hne : q ≠ p := by
    rintro rfl
    obtain rfl : r = q := by omega
    exact hp ⟨hb, value, hi⟩
  omega

theorem Behind.bounded (hitem : Advances input.size item) (hbetween : Advances input.size between)
    (h : Behind item between p q) :
    ∃ start value, ∃ n < roundsFrom input start,
      item p = .success start value ∧ Leads (Continues item between) n start q := by
  obtain ⟨start, value, n, hstart, hleads⟩ := h
  obtain ⟨m, hm, hleads⟩ := hleads.bounded fun _ _ => Continues.advances hitem hbetween
  exact ⟨start, value, m, hm, hstart, hleads⟩

theorem Stalls.endless (h : Stalls item between p) (rounds : Nat) :
    separatedFor item between rounds p = .endless := by
  induction rounds with
  | zero => rfl
  | succ rounds ih =>
    obtain ⟨hb, value, hi⟩ := h
    rw [separatedFor, hb]
    simp only [hi, ih, Outcome.andThen]

theorem Leads.endless {n rounds : Nat} (h : Leads (Continues item between) n p q)
    (hn : n ≤ rounds) (hq : Stalls item between q) :
    separatedFor item between rounds p = .endless := by
  obtain ⟨values, hrounds⟩ := h.separatedFor_eq
  have hrun := hrounds (rounds - n)
  rwa [Nat.sub_add_cancel hn, hq.endless, Outcome.andThen] at hrun

/-- A list that never stalls makes progress from every place that it comes to. -/
theorem ends_separatedFor_of_not_stalls {rounds : Nat} (hitem : Advances size item)
    (hbetween : Advances size between) (hends : ∀ q, (item q).Ends) (hstops : ∀ q, (between q).Ends)
    (hr : size - p < rounds)
    (h : ∀ n q, Leads (Continues item between) n p q → ¬ Stalls item between q) :
    (separatedFor item between rounds p).Ends := by
  refine ends_separatedFor
    (fun q => ∀ n r, Leads (Continues item between) n q r → ¬ Stalls item between r) hr h
    (fun q _ => hstops q) (fun _ r _ _ => hends r) fun q r s a hq hseparator hrun => ?_
  have hgo : Continues item between q s := ⟨r, a, hseparator, hrun⟩
  exact ⟨fun n t ht => hq (n + 1) t (.head hgo ht), hgo.moves hitem hbetween (hq 0 q .refl)⟩

/-! ### Repetitions of parsers that end -/

section Repetition

variable {item : Parser ι ρ α} {separator : Parser ι ρ Unit}
  (hagain : Advances input.size again) (hitem : ∀ q, (run shown input item again q).Ends)

include hagain hitem

theorem ends_many_of_ends (p : Nat) : (run shown input (.many item) again p).Ends := by
  refine ends_many (fun q _ => hitem q) fun q r a h hqr => ?_
  have hr := advances_run item hagain q r a h
  omega

theorem ends_separated_iff (hseparator : ∀ q, (run shown input separator again q).Ends) (p : Nat) :
    (run shown input (.separated item separator) again p).Ends ↔
      ∀ q, Behind (run shown input item again) (run shown input separator again) p q →
        ¬ Stalls (run shown input item again) (run shown input separator again) q := by
  have hitems : Advances input.size (run shown input item again) := advances_run item hagain
  have hseparators : Advances input.size (run shown input separator again) :=
    advances_run separator hagain
  rw [run_separated_eq]
  constructor
  · intro hends q hbehind hstalls
    obtain ⟨start, value, n, hn, hstart, hleads⟩ := hbehind.bounded hitems hseparators
    apply hends
    simp only [hstart, hleads.endless (Nat.le_of_lt hn) hstalls, Outcome.andThen]
  · intro hmoves
    split
    next start value hstart =>
      have hrest := ends_separatedFor_of_not_stalls hitems hseparators hitem hseparator
        (Nat.lt_succ_self _) fun n q hleads => hmoves q ⟨start, value, n, hstart, hleads⟩
      exact hrest.andThen fun _ _ _ => Outcome.ends_success _ _
    next he => exact absurd he (hitem p)
    next =>
      split
      · exact Outcome.ends_failure _
      · exact Outcome.ends_success _ _

/-- If an item always ends, then so do many of them. If the separator always ends too, then a list
of items ends exactly if it comes to no place behind an item where a separator and an item succeed
and take nothing. -/
theorem ends_of_repeated (hseparator : ∀ q, (run shown input separator again q).Ends) (p : Nat) :
    (run shown input (.many item) again p).Ends ∧
    ((run shown input (.separated item separator) again p).Ends ↔
      ∀ q, Behind (run shown input item again) (run shown input separator again) p q →
        ¬ Stalls (run shown input item again) (run shown input separator again) q) :=
  ⟨ends_many_of_ends hagain hitem p, ends_separated_iff hagain hitem hseparator p⟩

end Repetition

/-! ### Items and separators that may take nothing -/

def optionalDigit : Parser Char Empty (Option Char) :=
  .optional (.satisfy "digit" fun c => if c.isDigit then some c else none)

def commaChar : Parser Char Empty Unit :=
  ignored (equal String.singleton ',')

theorem ends_optionalDigit {input : Array Char} {again : Nat → Outcome Empty} (q : Nat) :
    (run String.singleton input optionalDigit again q).Ends :=
  ends_optional ends_satisfy

theorem ends_commaChar {input : Array Char} {again : Nat → Outcome Empty} (q : Nat) :
    (run String.singleton input commaChar again q).Ends :=
  ends_map ends_satisfy

/-- Items that may be empty, behind separators that are not. -/
theorem ends_of_repeated_commas :
    (∀ q, (optionalDigit.parse String.singleton #['1', ',', ','] q).Ends) ∧
    (∀ q, (commaChar.parse String.singleton #['1', ',', ','] q).Ends) ∧
    (Parser.parse (.many optionalDigit) String.singleton #['1', ',', ','] 0).Ends ∧
    (Parser.parse (.separated optionalDigit commaChar) String.singleton
      #['1', ',', ','] 0).Ends := by
  have hitem := @ends_optionalDigit #['1', ',', ','] fun _ => .endless
  obtain ⟨hmany, hseparated⟩ := ends_of_repeated nofun hitem ends_commaChar 0
  refine ⟨hitem, ends_commaChar, hmany, hseparated.mpr ?_⟩
  rintro q - ⟨hcomma, -⟩
  obtain ⟨c, hc, -⟩ := map_success hcomma
  obtain ⟨_, -, -, hq⟩ := satisfy_success hc
  omega

/-- Items and separators always end and never go back, but a list of them does not end. -/
theorem endless_of_empty_separators :
    (∀ q, (optionalDigit.parse String.singleton #['1', '2'] q).Ends) ∧
    (∀ q, (Parser.parse (ignored (.optional commaChar)) String.singleton #['1', '2'] q).Ends) ∧
    (∀ p q value, optionalDigit.parse String.singleton #['1', '2'] p = .success q value → p ≤ q) ∧
    (∀ p q value, Parser.parse (ignored (.optional commaChar)) String.singleton #['1', '2'] p =
      .success q value → p ≤ q) ∧
    Parser.parse (.separated optionalDigit (ignored (.optional commaChar))) String.singleton
      #['1', '2'] 0 = .endless :=
  ⟨ends_optionalDigit, fun _ => ends_map (ends_optional (ends_commaChar _)),
    fun p q value h => (advances_run optionalDigit nofun p q value h).1,
    fun p q value h => (advances_run (ignored (.optional commaChar)) nofun p q value h).1, rfl⟩

end GraphExpr.Parser
