import GraphExpr.Proofs.Grammar.Soundness

/-! # Every text of tokens is decided

A rule reads a nested expression only behind a token that it has taken, and a repetition goes on
only behind tokens. The bounds on the runs are therefore never met: reading ends with a tree or
an error, and the trees that it ends with are those that are derived.
-/

namespace GraphExpr.Parser

variable {ι : Type}

def Outcome.Ends {α : Type} (outcome : Outcome α) : Prop :=
  outcome ≠ .endless

theorem Outcome.ends_success {α : Type} (p : Nat) (a : α) : (Outcome.success p a).Ends := by
  simp [Ends]

theorem Outcome.ends_failure {α : Type} (error : ParseError) :
    (Outcome.failure error : Outcome α).Ends := by
  simp [Ends]

theorem Outcome.Ends.andThen {α β : Type} {outcome : Outcome α} {next : Nat → α → Outcome β}
    (h : outcome.Ends) (hnext : ∀ q a, outcome = .success q a → (next q a).Ends) :
    (outcome.andThen next).Ends := by
  cases outcome with
  | success q a => exact hnext q a rfl
  | failure error => exact ends_failure error
  | endless => exact absurd rfl h

variable {shown : ι → String} {input : Array ι} {ρ α β γ : Type} {again : Nat → Outcome ρ} {p : Nat}

/-! ### One step of a run -/

theorem ends_satisfy {expected : String} {accept : ι → Option α} :
    (run shown input (.satisfy expected accept) again p).Ends := by
  rw [run_satisfy_eq]
  split
  · exact Outcome.ends_failure _
  · split
    · exact Outcome.ends_success _ _
    · exact Outcome.ends_failure _

theorem ends_map {f : α → β} {inner : Parser ι ρ α}
    (h : (run shown input inner again p).Ends) :
    (run shown input (.map f inner) again p).Ends := by
  rw [run_map_eq]
  exact h.andThen fun _ _ _ => Outcome.ends_success _ _

theorem ends_tryMap {f : α → Nat → Except ParseError β} {inner : Parser ι ρ α}
    (h : (run shown input inner again p).Ends) :
    (run shown input (.tryMap f inner) again p).Ends := by
  rw [run_tryMap_eq]
  apply h.andThen
  intro q a _
  cases f a p with
  | ok b => exact Outcome.ends_success _ _
  | error error => exact Outcome.ends_failure _

theorem ends_within {name : String} {inner : Parser ι ρ α}
    (h : (run shown input inner again p).Ends) :
    (run shown input (.within name inner) again p).Ends := by
  rw [run_within_eq]
  split
  · exact Outcome.ends_failure _
  · exact h

theorem ends_optional {inner : Parser ι ρ α} (h : (run shown input inner again p).Ends) :
    (run shown input (.optional inner) again p).Ends := by
  rw [run_optional_eq]
  split
  · exact Outcome.ends_success _ _
  · next he => exact absurd he h
  · split
    · exact Outcome.ends_failure _
    · exact Outcome.ends_success _ _

theorem ends_pair {first : Parser ι ρ α} {second : Parser ι ρ β}
    (ha : (run shown input first again p).Ends)
    (hb : ∀ q a, run shown input first again p = .success q a →
      (run shown input second again q).Ends) :
    (run shown input (.pair first second) again p).Ends := by
  rw [run_pair_eq]
  apply ha.andThen
  intro q a hq
  exact (hb q a hq).andThen fun _ _ _ => Outcome.ends_success _ _

theorem ends_triple {first : Parser ι ρ α} {second : Parser ι ρ β} {third : Parser ι ρ γ}
    (ha : (run shown input first again p).Ends)
    (hb : ∀ q a, run shown input first again p = .success q a →
      (run shown input second again q).Ends)
    (hc : ∀ q r a b, run shown input first again p = .success q a →
      run shown input second again q = .success r b → (run shown input third again r).Ends) :
    (run shown input (.triple first second third) again p).Ends := by
  rw [run_triple_eq]
  apply ha.andThen
  intro q a hq
  apply (hb q a hq).andThen
  intro r b hr
  exact (hc q r a b hq hr).andThen fun _ _ _ => Outcome.ends_success _ _

theorem ends_preceded {first : Parser ι ρ α} {second : Parser ι ρ β}
    (ha : (run shown input first again p).Ends)
    (hb : ∀ q a, run shown input first again p = .success q a →
      (run shown input second again q).Ends) :
    (run shown input (.preceded first second) again p).Ends := by
  rw [run_preceded_eq]
  exact ha.andThen hb

theorem ends_delimited {left right : Parser ι ρ Unit} {inner : Parser ι ρ α}
    (hl : (run shown input left again p).Ends)
    (ha : ∀ q, run shown input left again p = .success q () →
      (run shown input inner again q).Ends)
    (hr : ∀ q, (run shown input right again q).Ends) :
    (run shown input (.delimited left inner right) again p).Ends := by
  rw [run_delimited_eq]
  apply hl.andThen
  intro q _ hq
  apply (ha q hq).andThen
  intro r a _
  exact (hr r).andThen fun _ _ _ => Outcome.ends_success _ _

theorem ends_oneOf {alternatives : List (Parser ι ρ α)}
    (h : ∀ q ∈ alternatives, (run shown input q again p).Ends) :
    (run shown input (oneOf alternatives) again p).Ends := by
  suffices hs : ∀ furthest, (chooseFrom p furthest alternatives.length
      fun i start => run shown input (alternatives.get i) again start).Ends from hs none
  induction alternatives with
  | nil => exact fun furthest => Outcome.ends_failure _
  | cons q alternatives ih =>
    intro furthest
    obtain ⟨hq, hrest⟩ := List.forall_mem_cons.mp h
    simp only [List.length_cons, chooseFrom, List.get_cons_zero]
    split
    · exact Outcome.ends_success _ _
    · next he => exact absurd he hq
    · split
      · exact Outcome.ends_failure _
      · exact ih hrest _

/-! ### Repetitions

A step that goes on stops further on within the input, so the symbols that are left bound the
rounds. -/

theorem ends_repeatFor {step : Nat → Outcome α} {size rounds : Nat} (hr : size - p < rounds)
    (hstep : ∀ q, p ≤ q → (step q).Ends)
    (hmoves : ∀ q r a, step q = .success r a → q < r → r ≤ size) :
    (repeatFor step rounds p).Ends := by
  induction rounds generalizing p with
  | zero => omega
  | succ rounds ih =>
    rw [repeatFor]
    split
    · next q a hq =>
      split
      · next hpq =>
        have hq := hmoves p q a hq hpq
        have hrest := ih (p := q) (by omega) fun r hr => hstep r (by omega)
        exact hrest.andThen fun _ _ _ => Outcome.ends_success _ _
      · exact Outcome.ends_success _ _
    · next he => exact absurd he (hstep p (Nat.le_refl p))
    · split
      · exact Outcome.ends_failure _
      · exact Outcome.ends_success _ _

theorem ends_separatedFor {step : Nat → Outcome α} {between : Nat → Outcome Unit}
    {size rounds : Nat} (behind : Nat → Prop) (hr : size - p < rounds) (hp : behind p)
    (hbetween : ∀ q, behind q → (between q).Ends)
    (hstep : ∀ q r, behind q → between q = .success r () → (step r).Ends)
    (hnext : ∀ q r s a, behind q → between q = .success r () → step r = .success s a →
      behind s ∧ q < s ∧ s ≤ size) :
    (separatedFor step between rounds p).Ends := by
  induction rounds generalizing p with
  | zero => omega
  | succ rounds ih =>
    rw [separatedFor]
    split
    · exact Outcome.ends_success _ _
    · next he => exact absurd he (hbetween p hp)
    · next q _ hq =>
      split
      · next r a hr =>
        obtain ⟨hbehind, hpr, hr⟩ := hnext p q r a hp hq hr
        have hrest := ih (p := r) (by omega) hbehind
        exact hrest.andThen fun _ _ _ => Outcome.ends_success _ _
      · next he => exact absurd he (hstep p q hp hq)
      · split
        · exact Outcome.ends_failure _
        · exact Outcome.ends_success _ _

theorem ends_many {inner : Parser ι ρ α}
    (hstep : ∀ q, p ≤ q → (run shown input inner again q).Ends)
    (hmoves : ∀ q r a, run shown input inner again q = .success r a → q < r →
      r ≤ input.size) :
    (run shown input (.many inner) again p).Ends := by
  rw [run_many_eq]
  exact ends_repeatFor (Nat.lt_succ_self _) hstep hmoves

theorem ends_separated {item : Parser ι ρ α} {separator : Parser ι ρ Unit}
    (hitem : ∀ q, p ≤ q → q ≤ input.size → (run shown input item again q).Ends)
    (hseparator : ∀ q, (run shown input separator again q).Ends)
    (hmoves : ∀ q r a, run shown input item again q = .success r a → q < r ∧ r ≤ input.size)
    (hstops : ∀ q r, run shown input separator again q = .success r () →
      q < r ∧ r ≤ input.size) (hp : p ≤ input.size) :
    (run shown input (.separated item separator) again p).Ends := by
  rw [run_separated_eq]
  split
  · next q a hq =>
    obtain ⟨hpq, _⟩ := hmoves p q a hq
    have hrest := ends_separatedFor (p := q) (fun r => p ≤ r) (Nat.lt_succ_self _)
      (Nat.le_of_lt hpq) (fun r _ => hseparator r)
      (fun r s hr hs => by
        have hs := hstops r s hs
        exact hitem s (by omega) hs.2)
      (fun r s t b hr hs ht => by
        have hs := hstops r s hs
        have ht := hmoves s t b ht
        exact ⟨by omega, by omega, ht.2⟩)
    exact hrest.andThen fun _ _ _ => Outcome.ends_success _ _
  · next he => exact absurd he (hitem p (Nat.le_refl p) hp)
  · split
    · exact Outcome.ends_failure _
    · exact Outcome.ends_success _ _

end GraphExpr.Parser

namespace GraphExpr.Grammar

open GraphExpr.Parser

variable {registry : Registry} {input : Array Token} {again : Nat → Outcome Expr} {p q : Nat}

/-! ### Progress -/

theorem Took.moves {ts : List Token} (h : Took input p q ts) (hts : ts ≠ []) :
    p < q ∧ q ≤ input.size := by
  have hl := congrArg List.length h.tokens
  have := List.length_pos_iff.mpr hts
  simp only [List.length_drop, Array.length_toList, List.length_append] at hl
  rw [h.stop] at hl ⊢
  omega

theorem Derives.ne_nil {e : Expr} {ts : List Token}
    (h : Derives registry (.expression e) ts) : ts ≠ [] := by
  have hstops : Stops [] := by simp [Stops]
  obtain ⟨t, us, hts, -⟩ := h.leavesName hstops
  rw [List.append_nil] at hts
  exact hts ▸ List.cons_ne_nil t us

theorem Parsed.moves {e : Expr} (h : Parsed registry input p q (.expression e)) :
    p < q ∧ q ≤ input.size := by
  obtain ⟨ts, hts, hd⟩ := h
  exact hts.moves hd.ne_nil

theorem moves_symbol {t : Token}
    (h : run Token.shown input (symbol t) again p = .success q ()) : p < q ∧ q ≤ input.size :=
  (took_symbol h).moves (by simp)

theorem moves_comma (h : run Token.shown input comma again p = .success q ()) :
    p < q ∧ q ≤ input.size :=
  (took_comma h).moves (by simp)

theorem moves_identifier {name : String}
    (h : run Token.shown input identifier again p = .success q name) : p < q ∧ q ≤ input.size :=
  (took_identifier h).moves (by simp)

/-! ### Rules -/

theorem ends_symbol (t : Token) : (run Token.shown input (symbol t) again p).Ends :=
  ends_map ends_satisfy

theorem ends_identifier : (run Token.shown input identifier again p).Ends :=
  ends_within ends_satisfy

theorem ends_comma : (run Token.shown input comma again p).Ends :=
  ends_map (ends_within ends_satisfy)

theorem ends_closeParen : (run Token.shown input closeParen again p).Ends :=
  ends_map (ends_within ends_satisfy)

theorem ends_closeBracket : (run Token.shown input closeBracket again p).Ends :=
  ends_map (ends_within ends_satisfy)

/-- Nested expressions are read to an end from a position on. -/
def EndsFrom (input : Array Token) (again : Nat → Outcome Expr) (p : Nat) : Prop :=
  ∀ q, p ≤ q → q ≤ input.size → (again q).Ends

theorem EndsFrom.mono (h : EndsFrom input again p) (hpq : p ≤ q) : EndsFrom input again q :=
  fun r hr => h r (Nat.le_trans hpq hr)

theorem ends_lambda (h : EndsFrom input again (p + 1)) :
    (run Token.shown input lambda again p).Ends := by
  refine ends_within (ends_tryMap (ends_delimited (ends_symbol _) (fun q hq => ?_) fun _ =>
    ends_closeParen))
  refine ends_triple ends_satisfy (fun _ _ _ => ends_symbol _) fun r s name _ hr hs => ?_
  obtain ⟨_, _, _, hr⟩ := satisfy_success hr
  have hq := moves_symbol hq
  have hs := moves_symbol hs
  exact h s (by omega) hs.2

theorem ends_parenthesized (h : EndsFrom input again (p + 1)) :
    (run Token.shown input parenthesized again p).Ends := by
  refine ends_delimited (ends_symbol _) (fun q hq => ?_) fun _ => ends_closeParen
  have hq := moves_symbol hq
  exact h q hq.1 hq.2

theorem ends_argument (h : EndsFrom input again p) (hp : p ≤ input.size) :
    (run Token.shown input argument again p).Ends := by
  apply ends_oneOf
  simp only [List.forall_mem_cons, List.not_mem_nil, false_implies, implies_true, and_true]
  constructor
  · refine ends_map (ends_pair ends_identifier fun q name hq => ?_)
    refine ends_preceded (ends_symbol _) fun r _ hr => ?_
    have hq := moves_identifier hq
    have hr := moves_symbol hr
    exact h r (by omega) hr.2
  · exact ends_map (h p (Nat.le_refl p) hp)

section Rules

variable (ha : ∀ p q e, again p = .success q e → Parsed registry input p q (.expression e))

include ha

theorem moves_argument {a : Argument}
    (h : run Token.shown input argument again p = .success q a) : p < q ∧ q ≤ input.size := by
  obtain ⟨ts, hts, hd⟩ := parsed_argument ha h
  cases hd with
  | positional hd => exact hts.moves hd.ne_nil
  | named hd => exact hts.moves (by simp)

theorem ends_list (h : EndsFrom input again (p + 1)) :
    (run Token.shown input list again p).Ends := by
  refine ends_within (ends_map (ends_delimited (ends_symbol _) (fun q hq => ?_) fun _ =>
    ends_closeBracket))
  have hq := moves_symbol hq
  exact ends_separated (h.mono hq.1) (fun _ => ends_comma) (fun r s e hs => (ha r s e hs).moves)
    (fun _ _ => moves_comma) hq.2

theorem ends_arguments (h : EndsFrom input again (p + 1)) :
    (run Token.shown input arguments again p).Ends := by
  refine ends_within (ends_delimited (ends_symbol _) (fun q hq => ?_) fun _ => ends_closeParen)
  have hq := moves_symbol hq
  have h := h.mono (q := q) hq.1
  exact ends_separated (fun r hr => ends_argument (h.mono hr)) (fun _ => ends_comma)
    (fun _ _ _ => moves_argument ha) (fun _ _ => moves_comma) hq.2

theorem ends_call (h : EndsFrom input again (p + 1)) :
    (run Token.shown input (call registry) again p).Ends := by
  refine ends_tryMap (ends_pair ends_identifier fun q name hq => ?_)
  have hq := moves_identifier hq
  exact ends_arguments ha (h.mono (by omega))

theorem ends_followUp (h : EndsFrom input again (p + 1)) :
    (run Token.shown input (followUp registry) again p).Ends := by
  refine ends_tryMap (ends_preceded (ends_symbol _) fun q _ hq => ?_)
  refine ends_pair ends_identifier fun r name hr => ends_optional ?_
  have hq := moves_symbol hq
  have hr := moves_identifier hr
  exact ends_arguments ha (h.mono (by omega))

theorem moves_followUp {f : Postfix}
    (h : run Token.shown input (followUp registry) again p = .success q f) :
    q ≤ input.size := by
  obtain ⟨⟨name, as⟩, hdot, -⟩ := tryMap_success h
  obtain ⟨r, _, -, hpair⟩ := preceded_success hdot
  obtain ⟨s, hname, hargs⟩ := pair_success hpair
  rcases optional_success hargs with ⟨as, -, hlist⟩ | ⟨-, rfl⟩
  · obtain ⟨ts, hts, -⟩ := parsed_arguments ha hlist
    exact (hts.moves (by simp)).2
  · exact (moves_identifier hname).2

theorem ends_primary (h : EndsFrom input again (p + 1)) :
    (run Token.shown input (primary registry) again p).Ends := by
  refine ends_within (ends_oneOf ?_)
  simp only [List.forall_mem_cons, List.not_mem_nil, false_implies, implies_true, and_true]
  exact ⟨ends_map (ends_within ends_satisfy), ends_list ha h, ends_map (ends_symbol _),
    ends_lambda h, ends_parenthesized h, ends_call ha h, ends_map ends_identifier⟩

theorem ends_expressionBody (h : EndsFrom input again (p + 1)) :
    (run Token.shown input (expressionBody registry) again p).Ends := by
  refine ends_within (ends_tryMap (ends_pair (ends_primary ha h) fun q e hq => ?_))
  obtain ⟨ts, hts, -⟩ := parsed_primary ha hq
  have hpq : p ≤ q := hts.stop ▸ Nat.le_add_right p ts.length
  exact ends_many (fun r hr => ends_followUp ha (h.mono (by omega)))
    (fun _ _ _ hf _ => moves_followUp ha hf)

end Rules

/-- A depth beyond the tokens that are left is enough. -/
theorem ends_nested (d : Nat) (h : input.size - p < d) : (nested registry input d p).Ends := by
  induction d generalizing p with
  | zero => omega
  | succ d ih =>
    rw [nested_succ]
    exact ends_expressionBody (parsed_nested d) fun q hpq hq => ih (by omega)

/-! ### Accepted tokens -/

theorem Derives.unique {e e' : Expr} {ts : List Token} (h : Derives registry (.expression e) ts)
    (h' : Derives registry (.expression e') ts) : e = e' := by
  have heq := h.parse.symm.trans h'.parse
  simpa using heq

/-- Whatever the tokens are, reading them as an expression ends. It takes all of them and gives a
tree exactly if they derive the tree, and they derive one tree at most. -/
theorem parse_iff_derives (registry : Registry) (ts : List Token) :
    (Grammar.expression registry).parse Token.shown ts.toArray 0 ≠ .endless ∧
    (∀ e, (Grammar.expression registry).parse Token.shown ts.toArray 0 = .success ts.length e ↔
      Derives registry (.expression e) ts) ∧
    ∀ e e', Derives registry (.expression e) ts →
      Derives registry (.expression e') ts → e = e' := by
  refine ⟨ends_nested _ (Nat.lt_succ_self _), fun e => ⟨fun h => ?_, Derives.parse⟩,
    fun _ _ => Derives.unique⟩
  exact parse_sound h (List.getElem?_eq_none (Nat.le_refl _))

end GraphExpr.Grammar
