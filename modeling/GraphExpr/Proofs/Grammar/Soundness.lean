import GraphExpr.Proofs.Except
import GraphExpr.Proofs.Grammar.Completeness

/-! # What the parser accepts is derived

Each rule takes a stretch of the input, and the tokens of the stretch derive what the rule makes
of them.
-/

namespace GraphExpr.Grammar

open GraphExpr.Parser

/-- The tokens between two positions of the input. -/
structure Took (input : Array Token) (p q : Nat) (ts : List Token) : Prop where
  tokens : At input p (ts ++ input.toList.drop q)
  stop : q = p + ts.length

namespace Took

variable {input : Array Token} {p q r : Nat} {ts us : List Token}

theorem nil (p : Nat) : Took input p p [] := ⟨rfl, rfl⟩

theorem append (h : Took input p q ts) (h' : Took input q r us) : Took input p r (ts ++ us) where
  tokens := by rw [At, h.tokens, h'.tokens, List.append_assoc]
  stop := by rw [h'.stop, h.stop, List.length_append, Nat.add_assoc]

theorem single {t : Token} (h : input[p]? = some t) : Took input p (p + 1) [t] where
  tokens := by
    have hp : p < input.toList.length := by
      obtain ⟨hp, _⟩ := Array.getElem?_eq_some_iff.mp h
      simpa using hp
    rw [At, List.drop_eq_getElem_cons hp, List.singleton_append]
    congr 1
    simpa [Array.getElem?_eq_some_iff] using (Array.getElem?_eq_some_iff.mp h).2
  stop := rfl

end Took

section Symbols

variable {input : Array Token} {again : Nat → Outcome Expr} {p q : Nat}

theorem took_equal {ρ : Type} {again : Nat → Outcome ρ} {t u : Token}
    (h : run Token.shown input (equal Token.shown t) again p = .success q u) :
    Took input p q [t] := by
  obtain ⟨v, hv, ha, rfl⟩ := satisfy_success h
  split at ha
  · next hvt => exact .single (hvt ▸ hv)
  · simp at ha

theorem took_symbol {t : Token} (h : run Token.shown input (symbol t) again p = .success q ()) :
    Took input p q [t] := by
  obtain ⟨_, h, _⟩ := map_success h
  exact took_equal h

theorem took_comma (h : run Token.shown input comma again p = .success q ()) :
    Took input p q [.comma] := by
  obtain ⟨_, h, _⟩ := map_success h
  exact took_equal (within_success h)

theorem took_closeParen (h : run Token.shown input closeParen again p = .success q ()) :
    Took input p q [.closeParen] := by
  obtain ⟨_, h, _⟩ := map_success h
  exact took_equal (within_success h)

theorem took_closeBracket (h : run Token.shown input closeBracket again p = .success q ()) :
    Took input p q [.closeBracket] := by
  obtain ⟨_, h, _⟩ := map_success h
  exact took_equal (within_success h)

theorem took_identifier {name : String}
    (h : run Token.shown input identifier again p = .success q name) :
    Took input p q [.identifier name] := by
  obtain ⟨t, ht, ha, rfl⟩ := satisfy_success (within_success h)
  cases t <;> simp at ha
  exact .single (ha ▸ ht)

theorem took_parameter {name : String}
    (h : run Token.shown input parameter again p = .success q name) :
    name = "this" ∨ Took input p q [.identifier name] := by
  obtain ⟨t, ht, ha, rfl⟩ := satisfy_success h
  cases t <;> simp at ha
  · exact .inl ha.symm
  · exact .inr (.single (ha ▸ ht))

theorem took_literal {value : Literal}
    (h : run Token.shown input literal again p = .success q value) :
    Took input p q [.literal value] := by
  obtain ⟨t, ht, ha, rfl⟩ := satisfy_success (within_success h)
  cases t <;> simp at ha
  exact .single (ha ▸ ht)

end Symbols

/-- The stretch between two positions derives the phrase. -/
def Parsed (registry : Registry) (input : Array Token) (p q : Nat) (ph : Phrase) : Prop :=
  ∃ ts, Took input p q ts ∧ Derives registry ph ts

section Rules

variable {registry : Registry} {input : Array Token} {again : Nat → Outcome Expr}
  (ha : ∀ p q e, again p = .success q e → Parsed registry input p q (.expression e))
  {p q : Nat}

include ha

theorem parsed_argument {a : Argument}
    (h : run Token.shown input argument again p = .success q a) :
    Parsed registry input p q (.argument a) := by
  obtain ⟨r, hr, h⟩ := oneOf_success h
  simp only [List.mem_cons, List.not_mem_nil, or_false] at hr
  rcases hr with rfl | rfl
  · obtain ⟨⟨key, e⟩, hpair, rfl⟩ := map_success h
    obtain ⟨r, hkey, hvalue⟩ := pair_success hpair
    obtain ⟨s, _, hassign, hread⟩ := preceded_success hvalue
    obtain ⟨ts, hts, hd⟩ := ha _ _ _ hread
    exact ⟨_, ((took_identifier hkey).append (took_symbol hassign)).append hts, .named hd⟩
  · obtain ⟨e, hread, rfl⟩ := map_success h
    obtain ⟨ts, hts, hd⟩ := ha _ _ _ hread
    exact ⟨ts, hts, .positional hd⟩

end Rules

section Series

variable {registry : Registry} {input : Array Token} {again : Nat → Outcome Expr} {α : Type}
  {item : Rule α} {f : α → Argument}
  (hitem : ∀ p q a, run Token.shown input item again p = .success q a →
    Parsed registry input p q (.argument (f a)))

include hitem

theorem parsed_more {rounds p q : Nat} {as : List α}
    (h : separatedFor (run Token.shown input item again) (run Token.shown input comma again)
      rounds p = .success q as) : Parsed registry input p q (.more (as.map f)) := by
  induction as generalizing rounds p with
  | nil =>
    rcases separatedFor_success h with ⟨_, rfl⟩ | ⟨_, hcomma⟩ | ⟨_, _, _, _, _, has, _⟩
    · exact ⟨[], .nil _, .last⟩
    · exact ⟨_, took_comma hcomma, .trailing⟩
    · simp at has
  | cons a as ih =>
    rcases separatedFor_success h with ⟨has, _⟩ | ⟨has, _⟩ | ⟨_, r, s, _, _, has, hcomma, ha, hr⟩
    · simp at has
    · simp at has
    · simp only [List.cons.injEq] at has
      obtain ⟨rfl, rfl⟩ := has
      obtain ⟨ts, hts, hd⟩ := hitem _ _ _ ha
      obtain ⟨us, hus, hm⟩ := ih hr
      exact ⟨_, ((took_comma hcomma).append hts).append hus, .next hd hm⟩

theorem parsed_series {p q : Nat} {as : List α}
    (h : run Token.shown input (.separated item comma) again p = .success q as) :
    Parsed registry input p q (.series (as.map f)) := by
  rcases separated_success h with ⟨rfl, rfl⟩ | ⟨_, r, a, as, rfl, ha, hr⟩
  · exact ⟨[], .nil _, .empty⟩
  · obtain ⟨ts, hts, hd⟩ := hitem _ _ _ ha
    obtain ⟨us, hus, hm⟩ := parsed_more hitem hr
    exact ⟨_, hts.append hus, .first hd hm⟩

end Series

/-! ### Calls -/

theorem namedOnly_eq_ok {f : Function} {position : Nat} {as : List Argument}
    {named : List (String × Expr)} (h : namedOnly f position as = .ok named) :
    as = named.map fun a => .named a.1 a.2 := by
  induction as generalizing named with
  | nil =>
    simp only [namedOnly, Except.ok.injEq] at h
    subst h
    rfl
  | cons a as ih =>
    cases a with
    | positional e => simp [namedOnly] at h
    | named key e =>
      rw [namedOnly] at h
      cases hrest : namedOnly f position as with
      | error error => rw [hrest] at h; cases h
      | ok rest =>
        rw [hrest] at h
        cases h
        rw [ih hrest, List.map_cons]

theorem splitArguments_eq_ok {f : Function} {position : Nat} {as : List Argument}
    {positional : Option Expr} {named : List (String × Expr)}
    (h : splitArguments f position as = .ok (positional, named)) :
    as = callArguments positional named := by
  have hnamed {as : List Argument} {x : Option Expr}
      (h : (namedOnly f position as).map (fun named => (x, named)) = .ok (positional, named)) :
      as = named.map (fun a => .named a.1 a.2) ∧ x = positional := by
    cases hrest : namedOnly f position as with
    | error error => rw [hrest] at h; cases h
    | ok rest =>
      rw [hrest] at h
      cases h
      exact ⟨namedOnly_eq_ok hrest, rfl⟩
  cases as with
  | nil =>
    cases h
    rfl
  | cons a as =>
    cases a with
    | named key e =>
      rw [splitArguments] at h
      · obtain ⟨has, rfl⟩ := hnamed h
        exact has
      · simp
    | positional e =>
      rw [splitArguments] at h
      obtain ⟨rfl, rfl⟩ := hnamed h
      rfl

theorem makeCall_eq_ok {f : Function} {positional : Option Expr} {named : List (String × Expr)}
    {position : Nat} {e : Expr} (h : makeCall f positional named position = .ok e) :
    e = .call f positional named ∧
      f.signature.fault? positional.isSome (named.map Prod.fst) = none := by
  rw [makeCall, Expr.call?] at h
  cases hf : f.signature.fault? positional.isSome (named.map Prod.fst) with
  | some fault => rw [hf] at h; cases h
  | none => rw [hf] at h; cases h; exact ⟨rfl, rfl⟩

theorem resolve_eq_ok {registry : Registry} {name : String} {position : Nat} {f : Function}
    (h : resolve registry name position = .ok f) : registry.resolve? name = some f := by
  rw [resolve] at h
  split at h
  · next hf => rw [hf]; cases h; rfl
  · cases h

/-! ### Primary expressions and what follows them -/

section Rules

variable {registry : Registry} {input : Array Token} {again : Nat → Outcome Expr}
  (ha : ∀ p q e, again p = .success q e → Parsed registry input p q (.expression e))
  {p q : Nat}

include ha

theorem parsed_arguments {as : List Argument}
    (h : run Token.shown input arguments again p = .success q as) :
    ∃ ts, Took input p q (.openParen :: ts ++ [.closeParen]) ∧
      Derives registry (.series as) ts := by
  obtain ⟨r, s, hopen, hseries, hclose⟩ := delimited_success (within_success h)
  obtain ⟨ts, hts, hd⟩ := parsed_series (f := id) (fun _ _ _ => parsed_argument ha) hseries
  rw [List.map_id] at hd
  exact ⟨ts, ((took_symbol hopen).append hts).append (took_closeParen hclose), hd⟩

theorem parsed_call {e : Expr} (h : run Token.shown input (call registry) again p = .success q e) :
    Parsed registry input p q (.primary e) := by
  obtain ⟨⟨name, as⟩, hpair, hf⟩ := tryMap_success h
  obtain ⟨r, hname, hargs⟩ := pair_success hpair
  obtain ⟨ts, hts, hd⟩ := parsed_arguments ha hargs
  obtain ⟨f, hresolve, hf⟩ := bind_eq_ok hf
  obtain ⟨⟨positional, named⟩, hsplit, hcall⟩ := bind_eq_ok hf
  obtain ⟨rfl, haccepted⟩ := makeCall_eq_ok hcall
  rw [splitArguments_eq_ok hsplit] at hd
  exact ⟨_, (took_identifier hname).append hts, .call ⟨resolve_eq_ok hresolve, haccepted⟩ hd⟩

theorem parsed_primary {e : Expr}
    (h : run Token.shown input (primary registry) again p = .success q e) :
    Parsed registry input p q (.primary e) := by
  obtain ⟨rule, hrule, h⟩ := oneOf_success (within_success h)
  simp only [List.mem_cons, List.not_mem_nil, or_false] at hrule
  rcases hrule with rfl | rfl | rfl | rfl | rfl | rfl | rfl
  · obtain ⟨value, hvalue, rfl⟩ := map_success h
    exact ⟨_, took_literal hvalue, .literal value⟩
  · obtain ⟨items, hlist, rfl⟩ := map_success (within_success h)
    obtain ⟨r, s, hopen, hitems, hclose⟩ := delimited_success hlist
    have hitem (p q : Nat) (e : Expr)
        (h : run Token.shown input .recur again p = .success q e) :
        Parsed registry input p q (.argument (.positional e)) := by
      obtain ⟨ts, hts, hd⟩ := ha _ _ _ h
      exact ⟨ts, hts, .positional hd⟩
    obtain ⟨ts, hts, hd⟩ := parsed_series hitem hitems
    exact ⟨_, ((took_symbol hopen).append hts).append (took_closeBracket hclose), .list hd⟩
  · obtain ⟨_, hthis, rfl⟩ := map_success h
    exact ⟨_, took_symbol hthis, .this⟩
  · obtain ⟨⟨name, _, body⟩, hgroup, hf⟩ := tryMap_success (within_success h)
    obtain ⟨r, s, hopen, htriple, hclose⟩ := delimited_success hgroup
    obtain ⟨t, u, hname, harrow, hbody⟩ := triple_success htriple
    obtain ⟨ts, hts, hd⟩ := ha _ _ _ hbody
    dsimp only at hf hname
    split at hf
    · cases hf
    · next hreserved =>
      cases hf
      rcases took_parameter hname with rfl | hname
      · exact absurd rfl hreserved
      · have hhead := ((took_symbol hopen).append hname).append (took_symbol harrow)
        exact ⟨_, (hhead.append hts).append (took_closeParen hclose),
          .lambda (Bool.eq_false_iff.mpr hreserved) hd⟩
  · obtain ⟨r, s, hopen, hread, hclose⟩ := delimited_success h
    obtain ⟨ts, hts, hd⟩ := ha _ _ _ hread
    exact ⟨_, ((took_symbol hopen).append hts).append (took_closeParen hclose),
      .parenthesized hd⟩
  · exact parsed_call ha h
  · obtain ⟨name, hname, rfl⟩ := map_success h
    exact ⟨_, took_identifier hname, .var name⟩

theorem parsed_followUps {fs : List Postfix} {e e' : Expr} {rounds : Nat}
    (h : repeatFor (run Token.shown input (followUp registry) again) rounds p = .success q fs)
    (happly : applyFollowUps e fs = .ok e') : Parsed registry input p q (.followUps e e') := by
  induction fs generalizing rounds p e with
  | nil =>
    rcases repeatFor_success h with ⟨_, rfl⟩ | ⟨_, _, _, _, hfs, _⟩
    · cases happly
      exact ⟨[], .nil _, .nothing _⟩
    · cases hfs
  | cons f fs ih =>
    rcases repeatFor_success h with ⟨hfs, _⟩ | ⟨_, r, _, _, hfs, hf, hrest⟩
    · cases hfs
    · cases hfs
      obtain ⟨⟨name, as⟩, hdot, hmake⟩ := tryMap_success hf
      obtain ⟨s, _, hdot, hpair⟩ := preceded_success hdot
      obtain ⟨t, hname, hargs⟩ := pair_success hpair
      have htook := (took_symbol hdot).append (took_identifier hname)
      rcases optional_success hargs with ⟨as, rfl, hlist⟩ | ⟨rfl, rfl⟩
      · obtain ⟨ts, hts, hd⟩ := parsed_arguments ha hlist
        obtain ⟨g, hresolve, hmake⟩ := bind_eq_ok hmake
        obtain ⟨⟨positional, named⟩, hsplit, hmake⟩ := bind_eq_ok hmake
        rw [splitArguments_eq_ok hsplit] at hd
        cases positional with
        | some x => cases hmake
        | none =>
          cases hmake
          obtain ⟨_, hcall, happly⟩ := bind_eq_ok happly
          obtain ⟨rfl, haccepted⟩ := makeCall_eq_ok hcall
          obtain ⟨us, hus, hd'⟩ := ih hrest happly
          refine ⟨_, (htook.append hts).append hus, ?_⟩
          simpa using Derives.dotCall ⟨resolve_eq_ok hresolve, haccepted⟩ hd hd'
      · cases hmake
        obtain ⟨us, hus, hd⟩ := ih hrest happly
        exact ⟨_, htook.append hus, .access hd⟩

end Rules

variable {registry : Registry} {input : Array Token}

theorem parsed_nested (d : Nat) : ∀ p q e, nested registry input d p = .success q e →
    Parsed registry input p q (.expression e) := by
  induction d with
  | zero => intro p q e h; cases h
  | succ d ih =>
    intro p q e h
    rw [nested_succ] at h
    obtain ⟨⟨receiver, fs⟩, hpair, happly⟩ := tryMap_success (within_success h)
    obtain ⟨r, hprimary, hfs⟩ := pair_success hpair
    obtain ⟨ts, hts, hd⟩ := parsed_primary ih hprimary
    obtain ⟨us, hus, hd'⟩ := parsed_followUps ih hfs happly
    exact ⟨_, hts.append hus, .expression hd hd'⟩

/-- The tokens that are read as an expression derive it. -/
theorem parse_sound {ts : List Token} {q : Nat} {e : Expr}
    (h : (Grammar.expression registry).parse Token.shown ts.toArray 0 = .success q e)
    (hq : ts[q]? = none) : Derives registry (.expression e) ts := by
  obtain ⟨us, hus, hd⟩ := parsed_nested _ _ _ _ h
  have hdrop : ts.drop q = [] := List.drop_eq_nil_of_le (List.getElem?_eq_none_iff.mp hq)
  have hts : ts = us := by simpa [At, hdrop] using hus.tokens
  rwa [hts]

/-- A text is read as the tree that its tokens derive. -/
theorem parse_eq_ok_iff {text : String} {e : Expr} :
    Expr.parse registry text = .ok e ↔ ∃ located, Token.readAll text = .ok located ∧
      Derives registry (.expression e) (located.map Token.Located.token) := by
  unfold Expr.parse
  constructor
  · intro h
    obtain ⟨located, hread, h⟩ := bind_eq_ok h
    have hread : Token.readAll text = .ok located := by
      cases hr : Token.readAll text with
      | error e => rw [hr] at hread; cases hread
      | ok ts => rw [hr] at hread; cases hread; rfl
    refine ⟨located, hread, ?_⟩
    dsimp only at h
    split at h
    next stop e' hrun =>
      split at h
      · cases h
      next hend =>
        cases h
        exact parse_sound hrun (by simp [hend])
    next => cases h
    next => cases h
  · rintro ⟨located, hread, hd⟩
    have hok : (Token.readAll text).mapError ParseError.noToken = .ok located := by rw [hread]; rfl
    have hnone : located[located.length]? = none := List.getElem?_eq_none (Nat.le_refl _)
    simp only [hok, hd.parse, List.length_map, hnone, bind, Except.bind]

end GraphExpr.Grammar
