import GraphExpr.Proofs.Grammar.Derivation

/-! # The parser accepts what is derived

The parser follows a derivation: at each place the alternatives before the derived one refuse the
next token. A derived stretch is read to its end, as long as what follows cannot continue it.
-/

namespace GraphExpr.Grammar

open GraphExpr.Parser

section Symbols

variable {input : Array Token} {again : Nat → Outcome Expr} {p : Nat}

theorem run_equal {ρ : Type} {t : Token} {ts : List Token} {again : Nat → Outcome ρ}
    (h : At input p (t :: ts)) :
    run Token.shown input (equal Token.shown t) again p = .success (p + 1) t := by
  simp [equal, run_satisfy_eq, h.getElem?]

theorem refuses_equal {t : Token} (h : input[p]? ≠ some t) :
    (run Token.shown input (equal Token.shown t) again p).Refuses := by
  refine refuses_satisfy fun u hu => if_neg ?_
  rintro rfl
  exact h hu

theorem run_symbol {t : Token} {ts : List Token} (h : At input p (t :: ts)) :
    run Token.shown input (symbol t) again p = .success (p + 1) () :=
  run_map (run_equal h)

theorem refuses_symbol {t : Token} (h : input[p]? ≠ some t) :
    (run Token.shown input (symbol t) again p).Refuses :=
  refuses_map (refuses_equal h)

theorem run_comma {ts : List Token} (h : At input p (.comma :: ts)) :
    run Token.shown input comma again p = .success (p + 1) () :=
  run_map (run_within (run_equal h))

theorem refuses_comma (h : input[p]? ≠ some .comma) :
    (run Token.shown input comma again p).Refuses :=
  refuses_map (refuses_within (refuses_equal h))

theorem run_closeParen {ts : List Token} (h : At input p (.closeParen :: ts)) :
    run Token.shown input closeParen again p = .success (p + 1) () :=
  run_map (run_within (run_equal h))

theorem run_closeBracket {ts : List Token} (h : At input p (.closeBracket :: ts)) :
    run Token.shown input closeBracket again p = .success (p + 1) () :=
  run_map (run_within (run_equal h))

theorem run_identifier {name : String} {ts : List Token}
    (h : At input p (.identifier name :: ts)) :
    run Token.shown input identifier again p = .success (p + 1) name :=
  run_within (by simp [run_satisfy_eq, h.getElem?])

theorem refuses_identifier (h : ∀ name, input[p]? ≠ some (.identifier name)) :
    (run Token.shown input identifier again p).Refuses := by
  refine refuses_within (refuses_satisfy fun t ht => ?_)
  cases t <;> first | rfl | exact absurd ht (h _)

theorem run_parameter {name : String} {ts : List Token}
    (h : At input p (.identifier name :: ts)) :
    run Token.shown input parameter again p = .success (p + 1) name := by
  simp [parameter, run_satisfy_eq, h.getElem?]

theorem run_literal {value : Literal} {ts : List Token} (h : At input p (.literal value :: ts)) :
    run Token.shown input literal again p = .success (p + 1) value :=
  run_within (by simp [run_satisfy_eq, h.getElem?])

theorem refuses_literal (h : ∀ value, input[p]? ≠ some (.literal value)) :
    (run Token.shown input literal again p).Refuses := by
  refine refuses_within (refuses_satisfy fun t ht => ?_)
  cases t <;> first | rfl | exact absurd ht (h _)

end Symbols

/-! ### Alternatives -/

section Alternatives

variable {registry : Registry} {input : Array Token} {again : Nat → Outcome Expr} {p : Nat}

theorem refuses_list (h : input[p]? ≠ some .openBracket) :
    (run Token.shown input list again p).Refuses :=
  refuses_within (refuses_map (refuses_delimited (refuses_symbol h)))

theorem refuses_lambda (h : input[p]? ≠ some .openParen) :
    (run Token.shown input lambda again p).Refuses :=
  refuses_within (refuses_tryMap (refuses_delimited (refuses_symbol h)))

theorem refuses_parenthesized (h : input[p]? ≠ some .openParen) :
    (run Token.shown input parenthesized again p).Refuses :=
  refuses_delimited (refuses_symbol h)

theorem refuses_arguments (h : input[p]? ≠ some .openParen) :
    (run Token.shown input arguments again p).Refuses :=
  refuses_within (refuses_delimited (refuses_symbol h))

theorem refuses_call_of_name (h : ∀ name, input[p]? ≠ some (.identifier name)) :
    (run Token.shown input (call registry) again p).Refuses :=
  refuses_tryMap (refuses_pair (refuses_identifier h))

theorem refuses_call_of_arguments {name : String} {ts : List Token}
    (h : At input p (.identifier name :: ts)) (hts : ts.head? ≠ some .openParen) :
    (run Token.shown input (call registry) again p).Refuses := by
  have ha : (run Token.shown input arguments again (p + 1)).Refuses :=
    refuses_arguments (by rw [h.next.getElem?]; exact hts)
  refine refuses_tryMap ?_
  rw [run_pair_eq, run_identifier h]
  exact ha.andThen _

theorem refuses_lambda_of_leavesName {t : Token} {us : List Token}
    (h : At input p (.openParen :: t :: us))
    (hname : t = .this ∨ (∃ n, t = .identifier n) → LeavesName us) :
    (run Token.shown input lambda again p).Refuses := by
  refine refuses_within (refuses_tryMap ?_)
  rw [run_delimited_eq, run_symbol h, Outcome.andThen]
  refine Outcome.Refuses.andThen ?_ _
  rw [run_triple_eq]
  by_cases ht : t = .this ∨ ∃ n, t = .identifier n
  · obtain ⟨name, hparameter⟩ : ∃ name,
        run Token.shown input parameter again (p + 1) = .success (p + 2) name := by
      rcases ht with rfl | ⟨n, rfl⟩
      · exact ⟨"this", by simp [parameter, run_satisfy_eq, h.next.getElem?]⟩
      · exact ⟨n, run_parameter h.next⟩
    have harrow : (run Token.shown input (symbol .arrow) again (p + 2)).Refuses := by
      refine refuses_symbol ?_
      rw [h.next.next.getElem?]
      exact fun he => (hname ht _ he).2 rfl
    rw [hparameter]
    exact harrow.andThen _
  · have hparameter : (run Token.shown input parameter again (p + 1)).Refuses := by
      refine refuses_satisfy fun u hu => ?_
      rw [h.next.getElem?, List.head?_cons, Option.mem_some_iff] at hu
      subst hu
      cases t <;> first | rfl | simp at ht
    exact hparameter.andThen _

theorem refuses_named_of_leavesName {t : Token} {us : List Token} (h : At input p (t :: us))
    (hname : t = .this ∨ (∃ n, t = .identifier n) → LeavesName us) :
    (run Token.shown input (.pair identifier (.preceded (symbol .assign) .recur)) again p
      : Outcome (String × Expr)).Refuses := by
  by_cases ht : ∃ n, t = .identifier n
  · obtain ⟨n, rfl⟩ := ht
    have hassign : (run Token.shown input (symbol .assign) again (p + 1)).Refuses := by
      refine refuses_symbol ?_
      rw [h.next.getElem?]
      exact fun he => (hname (.inr ⟨n, rfl⟩) _ he).1 rfl
    rw [run_pair_eq, run_identifier h]
    exact Outcome.Refuses.andThen (refuses_preceded hassign) _
  · refine refuses_pair (refuses_identifier fun n he => ht ⟨n, ?_⟩)
    simpa [h.getElem?] using he

end Alternatives

/-! ### Phrases -/

/-- An expression, in terms of the expressions inside it. -/
abbrev expressionBody (registry : Registry) : Rule Expr :=
  .within "expression" <|
    .tryMap (fun (receiver, followUps) _ => applyFollowUps receiver followUps) <|
      .pair (primary registry) (.many (followUp registry))

/-- Reads expressions that are nested at most to a depth. -/
def nested (registry : Registry) (input : Array Token) : Nat → Nat → Outcome Expr :=
  recurFor fun again start => run Token.shown input (expressionBody registry) again start

section Phrases

variable {registry : Registry} {input : Array Token} {p d : Nat} {ts rest : List Token}

theorem nested_succ (d p : Nat) : nested registry input (d + 1) p =
    run Token.shown input (expressionBody registry) (nested registry input d) p :=
  rfl

/-- The tokens from a position on are read as the phrase, wherever what follows cannot continue
it and the depth is enough for the tokens that are left. -/
def Phrase.Accepted (registry : Registry) (input : Array Token) (ts : List Token) : Phrase → Prop
  | expression e => ∀ {p d rest}, At input p (ts ++ rest) → Stops rest → input.size - p < d →
      nested registry input d p = .success (p + ts.length) e
  | primary e => ∀ {p d rest}, At input p (ts ++ rest) → rest.head? ≠ some .openParen →
      input.size - p ≤ d →
      run Token.shown input (Grammar.primary registry) (nested registry input d) p =
        .success (p + ts.length) e
  | followUps e e' => ∀ {p d rest r}, At input p (ts ++ rest) → Stops rest →
      input.size - p ≤ d → input.size - p < r →
      ∃ fs, repeatFor (run Token.shown input (followUp registry) (nested registry input d))
        r p = .success (p + ts.length) fs ∧ applyFollowUps e fs = .ok e'
  | argument a => ∀ {p d rest}, At input p (ts ++ rest) → Stops rest → input.size - p < d →
      run Token.shown input Grammar.argument (nested registry input d) p =
        .success (p + ts.length) a ∧
      ∀ e, a = .positional e → nested registry input d p = .success (p + ts.length) e
  | series as => ∀ {p d rest}, At input p (ts ++ rest) → Closes rest → input.size - p < d →
      run Token.shown input (.separated Grammar.argument comma) (nested registry input d) p =
        .success (p + ts.length) as ∧
      ∀ es, as = es.map .positional →
        run Token.shown input (.separated .recur comma) (nested registry input d) p =
          .success (p + ts.length) es
  | more as => ∀ {p d rest r}, At input p (ts ++ rest) → Closes rest → input.size - p < d →
      input.size - p < r →
      separatedFor (run Token.shown input Grammar.argument (nested registry input d))
        (run Token.shown input comma (nested registry input d)) r p =
          .success (p + ts.length) as ∧
      ∀ es, as = es.map .positional →
        separatedFor (nested registry input d)
          (run Token.shown input comma (nested registry input d)) r p =
            .success (p + ts.length) es

/-! Primary expressions. -/

theorem accepted_literal (value : Literal) :
    (Phrase.primary (.literal value)).Accepted registry input [.literal value] := by
  intro p d rest h _ _
  exact run_within (run_oneOf [] _ _ (by simp) (run_map (run_literal h)))

theorem behind_group (p : Nat) (t u : Token) (ts : List Token) :
    p + (t :: ts ++ [u]).length = p + 1 + ts.length + 1 := by
  simp only [List.length_cons, List.length_append, List.length_nil]; omega

theorem accepted_list {items : List Expr}
    (hs : (Phrase.series (items.map .positional)).Accepted registry input ts) :
    (Phrase.primary (.list items)).Accepted registry input
      (.openBracket :: ts ++ [.closeBracket]) := by
  intro p d rest h _ hd
  have hlt := h.lt_size
  have hin : At input (p + 1) (ts ++ .closeBracket :: rest) := by simpa using h.next
  have hitems := (hs (d := d) hin ⟨_, _, rfl, .inr rfl⟩ (by omega)).2 items rfl
  have hlist := run_delimited (run_symbol h) hitems (run_closeBracket hin.append)
  refine run_within (run_oneOf [.map Expr.literal literal] _ _ ?_ ?_)
  · simpa using refuses_map (refuses_literal (by simp [h.getElem?]))
  · rw [behind_group]
    exact run_within (run_map hlist)

theorem accepted_this : (Phrase.primary .this).Accepted registry input [.this] := by
  intro p d rest h _ _
  refine run_within (run_oneOf [.map Expr.literal literal, list] _ _ ?_ ?_)
  · simp only [List.forall_mem_cons]
    exact ⟨refuses_map (refuses_literal (by simp [h.getElem?])),
      refuses_list (by simp [h.getElem?]), by simp⟩
  · exact run_map (f := fun _ => Expr.this) (run_symbol h)

theorem refuses_before_group {ts : List Token} (h : At input p (.openParen :: ts)) :
    ∀ q ∈ [.map Expr.literal literal, list, .map (fun _ => Expr.this) (symbol .this)],
      (run Token.shown input q (nested registry input d) p).Refuses := by
  simp only [List.forall_mem_cons]
  exact ⟨refuses_map (refuses_literal (by simp [h.getElem?])),
    refuses_list (by simp [h.getElem?]), refuses_map (refuses_symbol (by simp [h.getElem?])),
    by simp⟩

theorem accepted_lambda {x : String} {body : Expr} (hx : isReserved x = false)
    (hbody : (Phrase.expression body).Accepted registry input ts) :
    (Phrase.primary (.lambda x body)).Accepted registry input
      (.openParen :: .identifier x :: .arrow :: ts ++ [.closeParen]) := by
  intro p d rest h _ hd
  have hlt := h.lt_size
  have hin : At input (p + 1 + 1 + 1) (ts ++ .closeParen :: rest) := by
    simpa using h.next.next.next
  have hread := hbody (d := d) hin (by simp [Stops]) (by omega)
  have hgroup := run_delimited (run_symbol h) (run_triple (run_parameter h.next)
    (run_symbol h.next.next) (run_recur hread)) (run_closeParen hin.append)
  refine run_within (run_oneOf _ _ _ (refuses_before_group h) ?_)
  rw [behind_group p .openParen .closeParen (.identifier x :: .arrow :: ts), List.length_cons,
    List.length_cons, show p + 1 + (ts.length + 1 + 1) + 1 = p + 1 + 1 + 1 + ts.length + 1 by omega]
  exact run_within (run_tryMap hgroup (if_neg (by simp [hx])))

theorem accepted_parenthesized {e : Expr} (he : Derives registry (.expression e) ts)
    (hread : (Phrase.expression e).Accepted registry input ts) :
    (Phrase.primary e).Accepted registry input (.openParen :: ts ++ [.closeParen]) := by
  intro p d rest h _ hd
  have hlt := h.lt_size
  have hin : At input (p + 1) (ts ++ .closeParen :: rest) := by simpa using h.next
  have hstops : Stops (.closeParen :: rest) := by simp [Stops]
  have hgroup := run_delimited (run_symbol h) (run_recur (hread (d := d) hin hstops (by omega)))
    (run_closeParen hin.append)
  obtain ⟨t, us, hts, hname⟩ := he.leavesName hstops
  have hopen : At input p (.openParen :: t :: us) := by simpa [hts] using h
  have hlambda : (run Token.shown input lambda (nested registry input d) p).Refuses :=
    refuses_lambda_of_leavesName hopen hname
  refine run_within (run_oneOf ([_, _, _] ++ [lambda]) _ _ ?_ ?_)
  · exact List.forall_mem_append.mpr ⟨refuses_before_group h, by simpa using hlambda⟩
  · rw [behind_group]
    exact hgroup

theorem refuses_before_name {name : String} {ts : List Token}
    (h : At input p (.identifier name :: ts)) :
    ∀ q ∈ [.map Expr.literal literal, list, .map (fun _ => Expr.this) (symbol .this), lambda,
        parenthesized],
      (run Token.shown input q (nested registry input d) p).Refuses := by
  simp only [List.forall_mem_cons]
  exact ⟨refuses_map (refuses_literal (by simp [h.getElem?])),
    refuses_list (by simp [h.getElem?]), refuses_map (refuses_symbol (by simp [h.getElem?])),
    refuses_lambda (by simp [h.getElem?]), refuses_parenthesized (by simp [h.getElem?]), by simp⟩

theorem accepted_var (name : String) :
    (Phrase.primary (.var name)).Accepted registry input [.identifier name] := by
  intro p d rest h hrest _
  refine run_within (run_oneOf ([_, _, _, _, _] ++ [call registry]) _ _ ?_ ?_)
  · exact List.forall_mem_append.mpr ⟨refuses_before_name h,
      by simpa using refuses_call_of_arguments h hrest⟩
  · exact run_map (run_identifier h)

/-! Arguments. -/

theorem namedOnly_named (f : Function) (position : Nat) (named : List (String × Expr)) :
    namedOnly f position (named.map fun a => .named a.1 a.2) = .ok named := by
  induction named with
  | nil => rfl
  | cons a named ih => simp [namedOnly, ih, Except.map]

theorem splitArguments_callArguments (f : Function) (position : Nat) (positional : Option Expr)
    (named : List (String × Expr)) :
    splitArguments f position (callArguments positional named) = .ok (positional, named) := by
  cases positional with
  | some e => simp [callArguments, splitArguments, namedOnly_named, Except.map]
  | none =>
    cases named with
    | nil => rfl
    | cons a named =>
      simp [callArguments, splitArguments, namedOnly, namedOnly_named, Except.map]

section Callable

variable {name : String} {f : Function} {positional : Option Expr} {named : List (String × Expr)}
  (h : Callable registry name f positional named) (position : Nat)

include h

theorem Callable.makeCall_eq :
    makeCall f positional named position = .ok (.call f positional named) := by
  rw [makeCall, Expr.call?, h.accepted]
  rfl

theorem Callable.resolve_eq : resolve registry name position = .ok f := by
  simp [resolve, h.resolved]

end Callable

theorem run_arguments {as : List Argument} {d : Nat}
    (hs : (Phrase.series as).Accepted registry input ts)
    (h : At input p (.openParen :: ts ++ .closeParen :: rest)) (hd : input.size - p ≤ d) :
    run Token.shown input arguments (nested registry input d) p =
      .success (p + 1 + ts.length + 1) as := by
  have hlt := h.lt_size
  have hin : At input (p + 1) (ts ++ .closeParen :: rest) := by simpa using h.next
  have hread := (hs (d := d) hin ⟨_, _, rfl, .inl rfl⟩ (by omega)).1
  exact run_within (run_delimited (run_symbol h) hread (run_closeParen hin.append))

theorem accepted_call {name : String} {f : Function} {positional : Option Expr}
    {named : List (String × Expr)} (hf : Callable registry name f positional named)
    (hs : (Phrase.series (callArguments positional named)).Accepted registry input ts) :
    (Phrase.primary (.call f positional named)).Accepted registry input
      (.identifier name :: .openParen :: ts ++ [.closeParen]) := by
  intro p d rest h _ hd
  have hin : At input (p + 1) (.openParen :: ts ++ .closeParen :: rest) := by simpa using h.next
  have hread := run_arguments (d := d) hs hin (by omega)
  refine run_within (run_oneOf [_, _, _, _, _] _ _ (refuses_before_name h) ?_)
  have hlen : p + (.identifier name :: .openParen :: ts ++ [Token.closeParen]).length =
      p + 1 + 1 + ts.length + 1 := by
    simp only [List.length_cons, List.length_append, List.length_nil]; omega
  rw [hlen]
  refine run_tryMap (run_pair (run_identifier h) hread) ?_
  simp [hf.resolve_eq, splitArguments_callArguments, hf.makeCall_eq, bind, Except.bind]

theorem accepted_positional {e : Expr} (he : Derives registry (.expression e) ts)
    (hread : (Phrase.expression e).Accepted registry input ts) :
    (Phrase.argument (.positional e)).Accepted registry input ts := by
  intro p d rest h hrest hd
  have hr := hread h hrest hd
  obtain ⟨t, us, hts, hname⟩ := he.leavesName hrest
  rw [hts] at h
  have hnamed := @refuses_named_of_leavesName input (nested registry input d) p t us h hname
  refine ⟨run_oneOf [_] _ _ ?_ ?_, ?_⟩
  · simpa using refuses_map hnamed
  · exact run_map (run_recur hr)
  · rintro e' he'
    cases he'
    exact hr

theorem accepted_named {key : String} {e : Expr}
    (hread : (Phrase.expression e).Accepted registry input ts) :
    (Phrase.argument (.named key e)).Accepted registry input
      (.identifier key :: .assign :: ts) := by
  intro p d rest h hrest hd
  have hlt := h.lt_size
  have hr := hread (d := d) h.next.next hrest (by omega)
  have hlen : p + (.identifier key :: Token.assign :: ts).length = p + 1 + 1 + ts.length := by
    simp only [List.length_cons]; omega
  rw [hlen]
  refine ⟨run_oneOf [] _ _ (by simp) ?_, by simp⟩
  exact run_map
    (run_pair (run_identifier h) (run_preceded (run_symbol h.next) (run_recur hr)))

theorem refuses_nested (h : At input p rest) (hrest : Closes rest) (hd : 0 < d) :
    (nested registry input d p).Refuses := by
  obtain ⟨t, us, rfl, ht⟩ := hrest
  obtain ⟨d, rfl⟩ : ∃ n, d = n + 1 := ⟨d - 1, by omega⟩
  have hp : input[p]? = some t := by rw [h.getElem?]; rfl
  refine refuses_within (refuses_tryMap (refuses_pair (refuses_within (refuses_oneOf ?_))))
  simp only [List.forall_mem_cons]
  rcases ht with rfl | rfl <;>
    exact ⟨refuses_map (refuses_literal (by simp [hp])), refuses_list (by simp [hp]),
      refuses_map (refuses_symbol (by simp [hp])), refuses_lambda (by simp [hp]),
      refuses_parenthesized (by simp [hp]), refuses_call_of_name (by simp [hp]),
      refuses_map (refuses_identifier (by simp [hp])), by simp⟩

theorem refuses_argument (h : At input p rest) (hrest : Closes rest) (hd : 0 < d) :
    (run Token.shown input argument (nested registry input d) p).Refuses := by
  have hn : (nested registry input d p).Refuses := refuses_nested h hrest hd
  have hp : ∀ name, input[p]? ≠ some (.identifier name) := by
    obtain ⟨t, us, rfl, ht⟩ := hrest
    rcases ht with rfl | rfl <;> simp [h.getElem?]
  refine refuses_oneOf ?_
  simp only [List.forall_mem_cons]
  exact ⟨refuses_map (refuses_pair (refuses_identifier hp)), refuses_map hn, by simp⟩

theorem Closes.comma_refuses (hrest : Closes rest) (h : At input p rest) :
    (run Token.shown input comma (nested registry input d) p).Refuses := by
  obtain ⟨t, us, rfl, ht⟩ := hrest
  refine refuses_comma ?_
  rcases ht with rfl | rfl <;> simp [h.getElem?]

/-! Series of arguments. -/

theorem accepted_empty : (Phrase.series []).Accepted registry input [] := by
  intro p d rest h hrest hd
  refine ⟨run_separated_of_refuses (refuses_argument h hrest (by omega)), fun es hes => ?_⟩
  obtain rfl : es = [] := by simpa using hes.symm
  exact run_separated_of_refuses (refuses_nested h hrest (by omega))

theorem accepted_last : (Phrase.more []).Accepted registry input [] := by
  intro p d rest rounds h hrest _ hr
  have hcomma : (run Token.shown input comma (nested registry input d) p).Refuses :=
    hrest.comma_refuses h
  refine ⟨separatedFor_of_refuses (by omega) hcomma, fun es hes => ?_⟩
  obtain rfl : es = [] := by simpa using hes.symm
  exact separatedFor_of_refuses (by omega) hcomma

theorem accepted_trailing : (Phrase.more []).Accepted registry input [.comma] := by
  intro p d rest rounds h hrest _ hr
  refine ⟨separatedFor_of_item_refuses (by omega) (run_comma h)
    (refuses_argument h.next hrest (by omega)), fun es hes => ?_⟩
  obtain rfl : es = [] := by simpa using hes.symm
  exact separatedFor_of_item_refuses (by omega) (run_comma h)
    (refuses_nested h.next hrest (by omega))

theorem Derives.more_stops {as : List Argument} (h : Derives registry (.more as) ts)
    (hrest : Closes rest) : Stops (ts ++ rest) := by
  cases h with
  | last => exact hrest.stops
  | trailing => simp [Stops]
  | next _ _ => simp [Stops]

section Series

variable {a : Argument} {as : List Argument} {us : List Token}
  (ha : (Phrase.argument a).Accepted registry input ts)
  (hm : Derives registry (.more as) us) (has : (Phrase.more as).Accepted registry input us)

include ha hm has

theorem accepted_first : (Phrase.series (a :: as)).Accepted registry input (ts ++ us) := by
  intro p d rest h hrest hd
  have hin : At input p (ts ++ (us ++ rest)) := by simpa using h
  obtain ⟨hread, hpositional⟩ := ha (d := d) hin (hm.more_stops hrest) hd
  obtain ⟨hmore, hitems⟩ := has (d := d) (r := roundsFrom input (p + ts.length)) hin.append
    hrest (by omega) (by simp only [roundsFrom]; omega)
  rw [List.length_append, ← Nat.add_assoc]
  refine ⟨run_separated hread hmore, fun es hes => ?_⟩
  obtain ⟨e, es, rfl, rfl, rfl⟩ := List.map_eq_cons_iff.mp hes.symm
  exact run_separated (run_recur (hpositional e rfl)) (hitems es rfl)

theorem accepted_next : (Phrase.more (a :: as)).Accepted registry input (.comma :: ts ++ us) := by
  intro p d rest rounds h hrest hd hr
  have hlt := h.lt_size
  have hin : At input (p + 1) (ts ++ (us ++ rest)) := by simpa using h.next
  obtain ⟨rounds, rfl⟩ : ∃ n, rounds = n + 1 := ⟨rounds - 1, by omega⟩
  obtain ⟨hread, hpositional⟩ := ha (d := d) hin (hm.more_stops hrest) (by omega)
  obtain ⟨hmore, hitems⟩ := has (d := d) (r := rounds) hin.append hrest (by omega) (by omega)
  have hlen : p + (Token.comma :: ts ++ us).length = p + 1 + ts.length + us.length := by
    simp only [List.length_cons, List.length_append]; omega
  rw [hlen]
  refine ⟨separatedFor_next (run_comma h) hread hmore, fun es hes => ?_⟩
  obtain ⟨e, es, rfl, rfl, rfl⟩ := List.map_eq_cons_iff.mp hes.symm
  exact separatedFor_next (run_comma h) (hpositional e rfl) (hitems es rfl)

end Series

/-! What follows behind dots. -/

theorem accepted_nothing (e : Expr) : (Phrase.followUps e e).Accepted registry input [] := by
  intro p d rest rounds h hrest _ hr
  have hdot : input[p]? ≠ some .dot := by
    rw [h.getElem?]
    exact fun he => by simpa using hrest _ he
  exact ⟨[], repeatFor_of_refuses (by omega)
    (refuses_tryMap (refuses_preceded (refuses_symbol hdot))), rfl⟩

theorem Derives.followUps_rest {e e' : Expr} (h : Derives registry (.followUps e e') ts)
    (hrest : Stops rest) : (ts ++ rest).head? ≠ some .openParen := by
  rcases h.followUps_head with rfl | ⟨us, rfl⟩
  · exact fun he => by simpa using hrest _ he
  · simp

section FollowUps

variable {e e' e'' : Expr} {us : List Token}

theorem accepted_access {name : String} (hs : Derives registry (.followUps (.access e name) e') ts)
    (h : (Phrase.followUps (.access e name) e').Accepted registry input ts) :
    (Phrase.followUps e e').Accepted registry input (.dot :: .identifier name :: ts) := by
  intro p d rest rounds hp hrest hd hr
  have hlt := hp.lt_size
  obtain ⟨rounds, rfl⟩ : ∃ n, rounds = n + 1 := ⟨rounds - 1, by omega⟩
  obtain ⟨fs, hfs, happly⟩ := h (d := d) (r := rounds) hp.next.next hrest (by omega) (by omega)
  have hopen : input[p + 1 + 1]? ≠ some .openParen := by
    rw [hp.next.next.getElem?]
    exact hs.followUps_rest hrest
  have hlen : p + (.dot :: Token.identifier name :: ts).length = p + 1 + 1 + ts.length := by
    simp only [List.length_cons]; omega
  rw [hlen]
  refine ⟨.attribute name :: fs, repeatFor_next ?_ (by omega) hfs, happly⟩
  exact run_tryMap (run_preceded (run_symbol hp) (run_pair (run_identifier hp.next)
    (run_optional_of_refuses (refuses_arguments hopen)))) rfl

theorem accepted_dotCall {name : String} {f : Function} {named : List (String × Expr)}
    (hf : Callable registry name f (some e) named)
    (hs : (Phrase.series (callArguments none named)).Accepted registry input ts)
    (h : (Phrase.followUps (.call f (some e) named) e').Accepted registry input us) :
    (Phrase.followUps e e').Accepted registry input
      (.dot :: .identifier name :: .openParen :: ts ++ .closeParen :: us) := by
  intro p d rest rounds hp hrest hd hr
  have hlt := hp.lt_size
  have hin : At input (p + 1 + 1) (.openParen :: ts ++ .closeParen :: (us ++ rest)) := by
    simpa using hp.next.next
  have harguments := run_arguments (d := d) hs hin (by omega)
  have hbehind : At input (p + 1 + 1 + 1 + ts.length + 1) (us ++ rest) := by
    have hts : At input (p + 1 + 1 + 1) (ts ++ .closeParen :: (us ++ rest)) := hin.next
    exact hts.append.next
  obtain ⟨rounds, rfl⟩ : ∃ n, rounds = n + 1 := ⟨rounds - 1, by omega⟩
  obtain ⟨fs, hfs, happly⟩ := h (d := d) (r := rounds) hbehind hrest (by omega) (by omega)
  have hlen : p + (.dot :: .identifier name :: Token.openParen :: ts ++ .closeParen :: us).length =
      p + 1 + 1 + 1 + ts.length + 1 + us.length := by
    simp only [List.length_cons, List.length_append]; omega
  rw [hlen]
  refine ⟨.call f named (p + 1) :: fs, repeatFor_next ?_ (by omega) hfs, ?_⟩
  · refine run_tryMap (run_preceded (run_symbol hp) (run_pair (run_identifier hp.next)
      (run_optional harguments))) ?_
    simp [hf.resolve_eq, splitArguments_callArguments, bind, Except.bind]
  · simp [applyFollowUps, hf.makeCall_eq, happly, bind, Except.bind]

theorem accepted_expression (hprimary : (Phrase.primary e).Accepted registry input ts)
    (hf : Derives registry (.followUps e e') us)
    (h : (Phrase.followUps e e').Accepted registry input us) :
    (Phrase.expression e').Accepted registry input (ts ++ us) := by
  intro p d rest hp hrest hd
  obtain ⟨d, rfl⟩ : ∃ n, d = n + 1 := ⟨d - 1, by omega⟩
  have hin : At input p (ts ++ (us ++ rest)) := by simpa using hp
  have hread := hprimary (d := d) hin (hf.followUps_rest hrest) (by omega)
  obtain ⟨fs, hfs, happly⟩ := h (d := d) (r := roundsFrom input (p + ts.length)) hin.append
    hrest (by omega) (by simp only [roundsFrom]; omega)
  rw [List.length_append, ← Nat.add_assoc]
  exact run_within (run_tryMap (run_pair hread hfs) happly)

end FollowUps

/-- The parser accepts what is derived. -/
theorem Derives.accepted {ph : Phrase} (h : Derives registry ph ts) :
    ph.Accepted registry input ts := by
  induction h with
  | expression _ hf ihp ihf => exact accepted_expression ihp hf ihf
  | literal value => exact accepted_literal value
  | list _ ih => exact accepted_list ih
  | this => exact accepted_this
  | lambda hx _ ih => exact accepted_lambda hx ih
  | parenthesized he ih => exact accepted_parenthesized he ih
  | call hf _ ih => exact accepted_call hf ih
  | var name => exact accepted_var name
  | nothing e => exact accepted_nothing e
  | access hs ih => exact accepted_access hs ih
  | dotCall hf _ _ ihs ih => exact accepted_dotCall hf ihs ih
  | positional he ih => exact accepted_positional he ih
  | named _ ih => exact accepted_named ih
  | empty => exact accepted_empty
  | first _ hm iha ihm => exact accepted_first iha hm ihm
  | last => exact accepted_last
  | trailing => exact accepted_trailing
  | next _ hm iha ihm => exact accepted_next iha hm ihm

theorem Derives.parse {e : Expr} (h : Derives registry (.expression e) ts) :
    (Grammar.expression registry).parse Token.shown ts.toArray 0 = .success ts.length e := by
  have hp : At ts.toArray 0 (ts ++ []) := by simp [At]
  have hread := h.accepted hp (by simp [Stops]) (Nat.lt_succ_self _)
  rwa [Nat.zero_add] at hread

end Phrases

end GraphExpr.Grammar
