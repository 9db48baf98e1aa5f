import GraphExpr.Grammar

/-! # Running parsers

What the combinators do at a place of the input whose symbols are known. A parser refuses a place
when it fails there without a fatal error, so that a choice goes on to its next alternative.
-/

namespace GraphExpr.Parser

variable {ι : Type}

/-- The symbols of the input from a position on. -/
def At (input : Array ι) (position : Nat) (symbols : List ι) : Prop :=
  input.toList.drop position = symbols

namespace At

variable {input : Array ι} {p : Nat} {t : ι} {ts us : List ι}

theorem append (h : At input p (ts ++ us)) : At input (p + ts.length) us := by
  rw [At, ← List.drop_drop, h, List.drop_left]

theorem next (h : At input p (t :: ts)) : At input (p + 1) ts :=
  (show At input p ([t] ++ ts) from h).append

theorem getElem? (h : At input p ts) : input[p]? = ts.head? := by
  rw [← h, List.head?_drop, Array.getElem?_toList]

theorem lt_size (h : At input p (t :: ts)) : p < input.size := by
  have hl := congrArg List.length h
  simp only [List.length_drop, Array.length_toList, List.length_cons] at hl
  omega

end At

/-- The run fails, but not for good. -/
def Outcome.Refuses {α : Type} (outcome : Outcome α) : Prop :=
  ∃ error, outcome = .failure error ∧ error.isFatal = false

theorem Outcome.Refuses.andThen {α β : Type} {outcome : Outcome α} (h : outcome.Refuses)
    (next : Nat → α → Outcome β) : (outcome.andThen next).Refuses := by
  obtain ⟨error, rfl, he⟩ := h
  exact ⟨error, rfl, he⟩

theorem isFatal_within (error : ParseError) (name : String) :
    (error.within name).isFatal = error.isFatal := by
  cases error <;> rfl

variable {shown : ι → String} {input : Array ι} {ρ α β γ : Type} {again : Nat → Outcome ρ} {p : Nat}

/-! ### One step of a run -/

theorem run_satisfy_eq {expected : String} {accept : ι → Option α} :
    run shown input (.satisfy expected accept) again p =
      match input[p]? with
      | none => .failure (endOfInput p)
      | some symbol =>
        match accept symbol with
        | some value => .success (p + 1) value
        | none => .failure (.unexpected expected (shown symbol) p []) := rfl

theorem run_map_eq {f : α → β} {inner : Parser ι ρ α} :
    run shown input (.map f inner) again p =
      (run shown input inner again p).andThen fun next value => .success next (f value) := rfl

theorem run_tryMap_eq {f : α → Nat → Except ParseError β} {inner : Parser ι ρ α} :
    run shown input (.tryMap f inner) again p =
      (run shown input inner again p).andThen fun next value =>
        match f value p with
        | .ok converted => .success next converted
        | .error error => .failure error := rfl

theorem run_pair_eq {first : Parser ι ρ α} {second : Parser ι ρ β} :
    run shown input (.pair first second) again p =
      (run shown input first again p).andThen fun next a =>
        (run shown input second again next).andThen fun stop b => .success stop (a, b) := rfl

theorem run_triple_eq {first : Parser ι ρ α} {second : Parser ι ρ β} {third : Parser ι ρ γ} :
    run shown input (.triple first second third) again p =
      (run shown input first again p).andThen fun q a =>
        (run shown input second again q).andThen fun r b =>
          (run shown input third again r).andThen fun stop c => .success stop (a, b, c) := rfl

theorem run_preceded_eq {first : Parser ι ρ α} {second : Parser ι ρ β} :
    run shown input (.preceded first second) again p =
      (run shown input first again p).andThen fun next _ => run shown input second again next :=
  rfl

theorem run_delimited_eq {left right : Parser ι ρ Unit} {inner : Parser ι ρ α} :
    run shown input (.delimited left inner right) again p =
      (run shown input left again p).andThen fun q _ =>
        (run shown input inner again q).andThen fun r value =>
          (run shown input right again r).andThen fun stop _ => .success stop value := rfl

theorem run_within_eq {name : String} {inner : Parser ι ρ α} :
    run shown input (.within name inner) again p =
      match run shown input inner again p with
      | .failure error => .failure (error.within name)
      | outcome => outcome := rfl

theorem run_optional_eq {inner : Parser ι ρ α} :
    run shown input (.optional inner) again p =
      match run shown input inner again p with
      | .success next value => .success next (some value)
      | .endless => .endless
      | .failure error => if error.isFatal then .failure error else .success p none := rfl

theorem run_many_eq {inner : Parser ι ρ α} :
    run shown input (.many inner) again p =
      repeatFor (run shown input inner again) (roundsFrom input p) p := rfl

theorem run_separated_eq {item : Parser ι ρ α} {separator : Parser ι ρ Unit} :
    run shown input (.separated item separator) again p =
      match run shown input item again p with
      | .success next value =>
        (separatedFor (run shown input item again) (run shown input separator again)
          (roundsFrom input next) next).andThen fun stop values => .success stop (value :: values)
      | .endless => .endless
      | .failure error => if error.isFatal then .failure error else .success p [] := rfl

/-! ### Refusals -/

theorem refuses_satisfy {expected : String} {accept : ι → Option α}
    (h : ∀ t ∈ input[p]?, accept t = none) :
    (run shown input (.satisfy expected accept) again p).Refuses := by
  rw [run_satisfy_eq]
  cases ht : input[p]? with
  | none => exact ⟨_, rfl, rfl⟩
  | some t =>
    rw [ht] at h
    simp only [h t rfl]
    exact ⟨_, rfl, rfl⟩

theorem refuses_within {name : String} {inner : Parser ι ρ α}
    (h : (run shown input inner again p).Refuses) :
    (run shown input (.within name inner) again p).Refuses := by
  obtain ⟨error, he, hf⟩ := h
  exact ⟨error.within name, by rw [run_within_eq, he], by rw [isFatal_within, hf]⟩

theorem refuses_map {f : α → β} {inner : Parser ι ρ α}
    (h : (run shown input inner again p).Refuses) :
    (run shown input (.map f inner) again p).Refuses := by
  rw [run_map_eq]; exact h.andThen _

theorem refuses_tryMap {f : α → Nat → Except ParseError β} {inner : Parser ι ρ α}
    (h : (run shown input inner again p).Refuses) :
    (run shown input (.tryMap f inner) again p).Refuses := by
  rw [run_tryMap_eq]; exact h.andThen _

theorem refuses_pair {first : Parser ι ρ α} {second : Parser ι ρ β}
    (h : (run shown input first again p).Refuses) :
    (run shown input (.pair first second) again p).Refuses := by
  rw [run_pair_eq]; exact h.andThen _

theorem refuses_preceded {first : Parser ι ρ α} {second : Parser ι ρ β}
    (h : (run shown input first again p).Refuses) :
    (run shown input (.preceded first second) again p).Refuses := by
  rw [run_preceded_eq]; exact h.andThen _

theorem refuses_delimited {left right : Parser ι ρ Unit} {inner : Parser ι ρ α}
    (h : (run shown input left again p).Refuses) :
    (run shown input (.delimited left inner right) again p).Refuses := by
  rw [run_delimited_eq]; exact h.andThen _

/-! ### Successes -/

theorem run_recur {outcome : Outcome α} {again : Nat → Outcome α} (h : again p = outcome) :
    run shown input .recur again p = outcome := h

theorem run_within {name : String} {inner : Parser ι ρ α} {stop : Nat} {value : α}
    (h : run shown input inner again p = .success stop value) :
    run shown input (.within name inner) again p = .success stop value := by
  rw [run_within_eq, h]

theorem run_map {f : α → β} {inner : Parser ι ρ α} {stop : Nat} {value : α}
    (h : run shown input inner again p = .success stop value) :
    run shown input (.map f inner) again p = .success stop (f value) := by
  rw [run_map_eq, h, Outcome.andThen]

theorem run_tryMap {f : α → Nat → Except ParseError β} {inner : Parser ι ρ α} {stop : Nat}
    {value : α} {result : β} (h : run shown input inner again p = .success stop value)
    (hf : f value p = .ok result) :
    run shown input (.tryMap f inner) again p = .success stop result := by
  rw [run_tryMap_eq, h, Outcome.andThen, hf]

theorem run_pair {first : Parser ι ρ α} {second : Parser ι ρ β} {middle stop : Nat} {a : α}
    {b : β} (ha : run shown input first again p = .success middle a)
    (hb : run shown input second again middle = .success stop b) :
    run shown input (.pair first second) again p = .success stop (a, b) := by
  rw [run_pair_eq, ha, Outcome.andThen, hb, Outcome.andThen]

theorem run_preceded {first : Parser ι ρ α} {second : Parser ι ρ β} {middle stop : Nat} {a : α}
    {b : β} (ha : run shown input first again p = .success middle a)
    (hb : run shown input second again middle = .success stop b) :
    run shown input (.preceded first second) again p = .success stop b := by
  rw [run_preceded_eq, ha, Outcome.andThen, hb]

theorem run_triple {first : Parser ι ρ α} {second : Parser ι ρ β} {third : Parser ι ρ γ}
    {q r stop : Nat} {a : α} {b : β} {c : γ} (ha : run shown input first again p = .success q a)
    (hb : run shown input second again q = .success r b)
    (hc : run shown input third again r = .success stop c) :
    run shown input (.triple first second third) again p = .success stop (a, b, c) := by
  rw [run_triple_eq, ha, Outcome.andThen, hb, Outcome.andThen, hc, Outcome.andThen]

theorem run_delimited {left right : Parser ι ρ Unit} {inner : Parser ι ρ α} {q r stop : Nat}
    {a : α} (hl : run shown input left again p = .success q ())
    (ha : run shown input inner again q = .success r a)
    (hr : run shown input right again r = .success stop ()) :
    run shown input (.delimited left inner right) again p = .success stop a := by
  rw [run_delimited_eq, hl, Outcome.andThen, ha, Outcome.andThen, hr, Outcome.andThen]

theorem run_optional {inner : Parser ι ρ α} {stop : Nat} {value : α}
    (h : run shown input inner again p = .success stop value) :
    run shown input (.optional inner) again p = .success stop (some value) := by
  rw [run_optional_eq, h]

theorem run_optional_of_refuses {inner : Parser ι ρ α}
    (h : (run shown input inner again p).Refuses) :
    run shown input (.optional inner) again p = .success p none := by
  obtain ⟨error, he, hf⟩ := h
  simp [run_optional_eq, he, hf]

/-! ### Repetitions -/

section Repetition

variable {item : Parser ι ρ α} {separator : Parser ι ρ Unit} {q stop rounds : Nat} {value : α}
  {values : List α} {step : Nat → Outcome α} {between : Nat → Outcome Unit}

theorem repeatFor_of_refuses (hr : 0 < rounds) (h : (step p).Refuses) :
    repeatFor step rounds p = .success p [] := by
  obtain ⟨rounds, rfl⟩ : ∃ n, rounds = n + 1 := ⟨rounds - 1, by omega⟩
  obtain ⟨error, he, hf⟩ := h
  simp [repeatFor, he, hf]

theorem repeatFor_next (h : step p = .success q value) (hq : p < q)
    (hrest : repeatFor step rounds q = .success stop values) :
    repeatFor step (rounds + 1) p = .success stop (value :: values) := by
  rw [repeatFor, h]
  simp only [if_pos hq, hrest, Outcome.andThen]

theorem separatedFor_of_refuses (hr : 0 < rounds) (h : (between p).Refuses) :
    separatedFor step between rounds p = .success p [] := by
  obtain ⟨rounds, rfl⟩ : ∃ n, rounds = n + 1 := ⟨rounds - 1, by omega⟩
  obtain ⟨error, he, _⟩ := h
  simp [separatedFor, he]

theorem separatedFor_of_item_refuses (hr : 0 < rounds) (hb : between p = .success q ())
    (h : (step q).Refuses) : separatedFor step between rounds p = .success q [] := by
  obtain ⟨rounds, rfl⟩ : ∃ n, rounds = n + 1 := ⟨rounds - 1, by omega⟩
  obtain ⟨error, he, hf⟩ := h
  simp [separatedFor, hb, he, hf]

theorem separatedFor_next {r : Nat} (hb : between p = .success q ()) (h : step q = .success r value)
    (hrest : separatedFor step between rounds r = .success stop values) :
    separatedFor step between (rounds + 1) p = .success stop (value :: values) := by
  rw [separatedFor, hb]
  simp only [h, hrest, Outcome.andThen]

theorem run_separated_of_refuses (h : (run shown input item again p).Refuses) :
    run shown input (.separated item separator) again p = .success p [] := by
  obtain ⟨error, he, hf⟩ := h
  simp [run_separated_eq, he, hf]

theorem run_separated (h : run shown input item again p = .success q value)
    (hrest : separatedFor (run shown input item again) (run shown input separator again)
      (roundsFrom input q) q = .success stop values) :
    run shown input (.separated item separator) again p = .success stop (value :: values) := by
  simp only [run_separated_eq, h, hrest, Outcome.andThen]

end Repetition

/-! ### Choices -/

theorem chooseFrom_of_refuses {count : Nat} {attempt : Fin count → Nat → Outcome α}
    (i : Fin count) (hbefore : ∀ j < i, (attempt j p).Refuses) (hi : ¬ (attempt i p).Refuses)
    (furthest : Option ParseError) : chooseFrom p furthest count attempt = attempt i p := by
  induction count generalizing furthest with
  | zero => exact i.elim0
  | succ count ih =>
    rw [chooseFrom]
    cases i using Fin.cases with
    | zero =>
      split
      next hfirst => exact hfirst.symm
      next hfirst => exact hfirst.symm
      next error hfirst =>
        split
        next => exact hfirst.symm
        next hfatal => exact absurd ⟨error, hfirst, by simpa using hfatal⟩ hi
    | succ i =>
      obtain ⟨error, hfirst, hfatal⟩ := hbefore 0 i.succ_pos
      simp only [hfirst, hfatal, Bool.false_eq_true, if_false]
      exact ih i (fun j hj => hbefore j.succ (Fin.succ_lt_succ_iff.mpr hj)) hi _

/-- A choice takes the first alternative that succeeds, if those before it refuse. -/
theorem run_oneOf (before : List (Parser ι ρ α)) (chosen : Parser ι ρ α)
    (after : List (Parser ι ρ α)) {stop : Nat} {value : α}
    (hb : ∀ q ∈ before, (run shown input q again p).Refuses)
    (hc : run shown input chosen again p = .success stop value) :
    run shown input (oneOf (before ++ chosen :: after)) again p = .success stop value := by
  have hchosen : (before ++ chosen :: after).get ⟨before.length, by simp⟩ = chosen := by simp
  refine (chooseFrom_of_refuses ⟨before.length, by simp⟩ (fun j hj => ?_) ?_ none).trans ?_
  · have hget : (before ++ chosen :: after).get j = before.get ⟨j, hj⟩ :=
      List.getElem_append_left hj
    rw [hget]
    exact hb _ (List.get_mem ..)
  · rw [hchosen, hc]
    rintro ⟨error, he, -⟩
    cases he
  · rw [hchosen, hc]

theorem isFatal_choiceError {furthest : Option ParseError}
    (h : ∀ error ∈ furthest, error.isFatal = false) (start : Nat) :
    (choiceError start furthest).isFatal = false := by
  cases furthest with
  | none => rfl
  | some error =>
    simp only [choiceError]
    split
    · exact h error rfl
    · rfl

theorem isFatal_further {furthest : Option ParseError} {error : ParseError}
    (h : ∀ e ∈ furthest, e.isFatal = false) (he : error.isFatal = false) :
    ∀ e ∈ further furthest error, e.isFatal = false := by
  cases furthest with
  | none => simpa [further] using he
  | some best =>
    simp only [further]
    split
    · simpa using he
    · exact h

theorem refuses_oneOf {alternatives : List (Parser ι ρ α)}
    (h : ∀ q ∈ alternatives, (run shown input q again p).Refuses) :
    (run shown input (oneOf alternatives) again p).Refuses := by
  suffices hs : ∀ furthest : Option ParseError, (∀ e ∈ furthest, e.isFatal = false) →
      (chooseFrom p furthest alternatives.length
        (fun i start => run shown input (alternatives.get i) again start)).Refuses from
    hs none (by simp)
  induction alternatives with
  | nil => exact fun furthest hf => ⟨_, rfl, isFatal_choiceError hf p⟩
  | cons q alternatives ih =>
    intro furthest hf
    obtain ⟨error, he, hfatal⟩ := h q (by simp)
    simp only [List.length_cons, chooseFrom, List.get_cons_zero, he, hfatal,
      Bool.false_eq_true, if_false]
    exact ih (fun r hr => h r (by simp [hr])) _ (isFatal_further hf hfatal)

/-! ### What a success tells -/

section Inversion

variable {stop : Nat}

theorem Outcome.andThen_eq_success {outcome : Outcome α} {next : Nat → α → Outcome β} {value : β}
    (h : outcome.andThen next = .success stop value) :
    ∃ q a, outcome = .success q a ∧ next q a = .success stop value := by
  cases outcome with
  | success q a => exact ⟨q, a, rfl, h⟩
  | failure error => simp [Outcome.andThen] at h
  | endless => simp [Outcome.andThen] at h

theorem satisfy_success {expected : String} {accept : ι → Option α} {value : α}
    (h : run shown input (.satisfy expected accept) again p = .success stop value) :
    ∃ t, input[p]? = some t ∧ accept t = some value ∧ stop = p + 1 := by
  rw [run_satisfy_eq] at h
  cases ht : input[p]? with
  | none => simp [ht] at h
  | some t =>
    simp only [ht] at h
    cases ha : accept t with
    | none => simp [ha] at h
    | some a =>
      simp only [ha, Outcome.success.injEq] at h
      exact ⟨t, rfl, by rw [ha, h.2], h.1.symm⟩

theorem within_success {name : String} {inner : Parser ι ρ α} {value : α}
    (h : run shown input (.within name inner) again p = .success stop value) :
    run shown input inner again p = .success stop value := by
  rw [run_within_eq] at h
  split at h
  · simp at h
  · exact h

theorem map_success {f : α → β} {inner : Parser ι ρ α} {value : β}
    (h : run shown input (.map f inner) again p = .success stop value) :
    ∃ a, run shown input inner again p = .success stop a ∧ value = f a := by
  obtain ⟨q, a, ha, hs⟩ := Outcome.andThen_eq_success (run_map_eq.symm.trans h)
  simp only [Outcome.success.injEq] at hs
  exact ⟨a, by rw [ha, hs.1], hs.2.symm⟩

theorem tryMap_success {f : α → Nat → Except ParseError β} {inner : Parser ι ρ α} {value : β}
    (h : run shown input (.tryMap f inner) again p = .success stop value) :
    ∃ a, run shown input inner again p = .success stop a ∧ f a p = .ok value := by
  obtain ⟨q, a, ha, hs⟩ := Outcome.andThen_eq_success (run_tryMap_eq.symm.trans h)
  cases hf : f a p with
  | error error => simp [hf] at hs
  | ok b =>
    simp only [hf, Outcome.success.injEq] at hs
    exact ⟨a, by rw [ha, hs.1], by rw [hf, hs.2]⟩

theorem pair_success {first : Parser ι ρ α} {second : Parser ι ρ β} {value : α × β}
    (h : run shown input (.pair first second) again p = .success stop value) :
    ∃ q, run shown input first again p = .success q value.1 ∧
      run shown input second again q = .success stop value.2 := by
  obtain ⟨q, a, ha, hs⟩ := Outcome.andThen_eq_success (run_pair_eq.symm.trans h)
  obtain ⟨r, b, hb, hs⟩ := Outcome.andThen_eq_success hs
  simp only [Outcome.success.injEq] at hs
  obtain ⟨rfl, rfl⟩ := hs
  exact ⟨q, ha, hb⟩

theorem triple_success {first : Parser ι ρ α} {second : Parser ι ρ β} {third : Parser ι ρ γ}
    {value : α × β × γ}
    (h : run shown input (.triple first second third) again p = .success stop value) :
    ∃ q r, run shown input first again p = .success q value.1 ∧
      run shown input second again q = .success r value.2.1 ∧
      run shown input third again r = .success stop value.2.2 := by
  obtain ⟨q, a, ha, hs⟩ := Outcome.andThen_eq_success (run_triple_eq.symm.trans h)
  obtain ⟨r, b, hb, hs⟩ := Outcome.andThen_eq_success hs
  obtain ⟨t, c, hc, hs⟩ := Outcome.andThen_eq_success hs
  simp only [Outcome.success.injEq] at hs
  obtain ⟨rfl, rfl⟩ := hs
  exact ⟨q, r, ha, hb, hc⟩

theorem preceded_success {first : Parser ι ρ α} {second : Parser ι ρ β} {value : β}
    (h : run shown input (.preceded first second) again p = .success stop value) :
    ∃ q a, run shown input first again p = .success q a ∧
      run shown input second again q = .success stop value :=
  Outcome.andThen_eq_success (run_preceded_eq.symm.trans h)

theorem delimited_success {left right : Parser ι ρ Unit} {inner : Parser ι ρ α} {value : α}
    (h : run shown input (.delimited left inner right) again p = .success stop value) :
    ∃ q r, run shown input left again p = .success q () ∧
      run shown input inner again q = .success r value ∧
      run shown input right again r = .success stop () := by
  obtain ⟨q, _, hl, hs⟩ := Outcome.andThen_eq_success (run_delimited_eq.symm.trans h)
  obtain ⟨r, a, ha, hs⟩ := Outcome.andThen_eq_success hs
  obtain ⟨t, _, hr, hs⟩ := Outcome.andThen_eq_success hs
  simp only [Outcome.success.injEq] at hs
  obtain ⟨rfl, rfl⟩ := hs
  exact ⟨q, r, hl, ha, hr⟩

theorem optional_success {inner : Parser ι ρ α} {value : Option α}
    (h : run shown input (.optional inner) again p = .success stop value) :
    (∃ a, value = some a ∧ run shown input inner again p = .success stop a) ∨
      (value = none ∧ stop = p) := by
  rw [run_optional_eq] at h
  split at h
  · next q a ha =>
    simp only [Outcome.success.injEq] at h
    obtain ⟨rfl, rfl⟩ := h
    exact .inl ⟨a, rfl, ha⟩
  · simp at h
  · next error _ =>
    split at h
    · simp at h
    · simp only [Outcome.success.injEq] at h
      exact .inr ⟨h.2.symm, h.1.symm⟩

theorem chooseFrom_success {count : Nat} {attempt : Fin count → Nat → Outcome α}
    {furthest : Option ParseError} {value : α}
    (h : chooseFrom p furthest count attempt = .success stop value) :
    ∃ i, attempt i p = .success stop value := by
  induction count generalizing furthest with
  | zero => simp [chooseFrom] at h
  | succ count ih =>
    rw [chooseFrom] at h
    split at h
    · next hfirst => exact ⟨0, hfirst.trans h⟩
    · simp at h
    · split at h
      · simp at h
      · obtain ⟨i, hi⟩ := ih h
        exact ⟨i.succ, hi⟩

theorem oneOf_success {alternatives : List (Parser ι ρ α)} {value : α}
    (h : run shown input (oneOf alternatives) again p = .success stop value) :
    ∃ q ∈ alternatives, run shown input q again p = .success stop value := by
  obtain ⟨i, hi⟩ := chooseFrom_success h
  exact ⟨_, alternatives.get_mem i, hi⟩

theorem repeatFor_success {step : Nat → Outcome α} {rounds p : Nat} {values : List α}
    (h : repeatFor step rounds p = .success stop values) :
    (values = [] ∧ stop = p) ∨
      ∃ rounds' q a as, values = a :: as ∧ step p = .success q a ∧
        repeatFor step rounds' q = .success stop as := by
  cases rounds with
  | zero => simp [repeatFor] at h
  | succ rounds =>
    rw [repeatFor] at h
    split at h
    · next q a ha =>
      split at h
      · obtain ⟨r, as, has, hs⟩ := Outcome.andThen_eq_success h
        simp only [Outcome.success.injEq] at hs
        obtain ⟨rfl, rfl⟩ := hs
        exact .inr ⟨rounds, q, a, as, rfl, ha, has⟩
      · simp only [Outcome.success.injEq] at h
        exact .inl ⟨h.2.symm, h.1.symm⟩
    · simp at h
    · split at h
      · simp at h
      · simp only [Outcome.success.injEq] at h
        exact .inl ⟨h.2.symm, h.1.symm⟩

theorem separatedFor_success {step : Nat → Outcome α} {between : Nat → Outcome Unit}
    {rounds p : Nat} {values : List α}
    (h : separatedFor step between rounds p = .success stop values) :
    (values = [] ∧ stop = p) ∨ (values = [] ∧ between p = .success stop ()) ∨
      ∃ rounds' q r a as, values = a :: as ∧ between p = .success q () ∧ step q = .success r a ∧
        separatedFor step between rounds' r = .success stop as := by
  cases rounds with
  | zero => simp [separatedFor] at h
  | succ rounds =>
    rw [separatedFor] at h
    split at h
    · simp only [Outcome.success.injEq] at h
      exact .inl ⟨h.2.symm, h.1.symm⟩
    · simp at h
    · next q _ hb =>
      split at h
      · next r a ha =>
        obtain ⟨t, as, has, hs⟩ := Outcome.andThen_eq_success h
        simp only [Outcome.success.injEq] at hs
        obtain ⟨rfl, rfl⟩ := hs
        exact .inr (.inr ⟨rounds, q, r, a, as, rfl, hb, ha, has⟩)
      · simp at h
      · split at h
        · simp at h
        · simp only [Outcome.success.injEq] at h
          obtain ⟨rfl, rfl⟩ := h
          exact .inr (.inl ⟨rfl, hb⟩)

theorem separated_success {item : Parser ι ρ α} {separator : Parser ι ρ Unit} {values : List α}
    (h : run shown input (.separated item separator) again p = .success stop values) :
    (values = [] ∧ stop = p) ∨
      ∃ rounds q a as, values = a :: as ∧ run shown input item again p = .success q a ∧
        separatedFor (run shown input item again) (run shown input separator again) rounds q =
          .success stop as := by
  rw [run_separated_eq] at h
  split at h
  · next q a ha =>
    obtain ⟨r, as, has, hs⟩ := Outcome.andThen_eq_success h
    simp only [Outcome.success.injEq] at hs
    obtain ⟨rfl, rfl⟩ := hs
    exact .inr ⟨_, q, a, as, rfl, ha, has⟩
  · simp at h
  · split at h
    · simp at h
    · simp only [Outcome.success.injEq] at h
      exact .inl ⟨h.2.symm, h.1.symm⟩

end Inversion

end GraphExpr.Parser
