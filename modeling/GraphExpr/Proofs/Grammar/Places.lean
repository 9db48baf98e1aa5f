import GraphExpr.Proofs.Canonical.Idempotence
import GraphExpr.Proofs.Grammar.Totality
import GraphExpr.Proofs.Token.Tiling

/-! # Where the errors of a text are

An error of a run is about the token at which it points, and every rule hands on the errors of
its parts. The place of a call is that of its name, one token behind a dot, and goes with the call
until its arguments are checked.
-/

namespace GraphExpr

def Token.Names (t : Token) (name : String) : Prop :=
  t = .identifier name ∨ t = .this ∧ name = "this"

namespace Parser

/-- The error is about the token of the input at which it points, or about the end of it. -/
def Places (input : Array Token) : ParseError → Prop
  | .unexpectedEnd _ p _ => p = input.size
  | .unexpected _ found p _ => ∃ t, input[p]? = some t ∧ t.shown = found
  | .noAlternative p _ => p ≤ input.size
  | .unknownFunction name p | .invalidArguments name _ p => input[p]? = some (.identifier name)
  | .reservedIdentifier name p => isReserved name = true ∧ ∃ t, input[p]? = some t ∧ t.Names name
  | .failure .. | .noToken _ | .trailingInput .. => False

variable {input : Array Token} {ρ α β γ : Type} {p : Nat}

theorem Places.within {error : ParseError} (h : Places input error) (name : String) :
    Places input (error.within name) := by
  cases error <;> exact h

theorem places_choiceError {furthest : Option ParseError}
    (h : ∀ error ∈ furthest, Places input error) (hp : p ≤ input.size) :
    Places input (choiceError p furthest) := by
  cases furthest with
  | none => exact hp
  | some error =>
    rw [choiceError]
    split
    · exact h error rfl
    · exact hp

theorem places_further {furthest : Option ParseError} {error : ParseError}
    (h : ∀ e ∈ furthest, Places input e) (he : Places input error) :
    ∀ e ∈ further furthest error, Places input e := by
  cases furthest with
  | none => simpa [further] using he
  | some best =>
    rw [further]
    split
    · simpa using he
    · exact h

/-- The run ends within the input with a value that satisfies a condition, or with an error in
its place. -/
def Outcome.Reports (input : Array Token) (holds : Nat → α → Prop) : Outcome α → Prop
  | .success q a => q ≤ input.size ∧ holds q a
  | .failure error => Places input error
  | .endless => True

namespace Outcome.Reports

variable {holds : Nat → α → Prop} {holds' : Nat → β → Prop} {outcome : Outcome α}

theorem andThen {next : Nat → α → Outcome β} (h : outcome.Reports input holds)
    (hnext : ∀ q a, q ≤ input.size → holds q a → (next q a).Reports input holds') :
    (outcome.andThen next).Reports input holds' := by
  cases outcome with
  | success q a => exact hnext q a h.1 h.2
  | failure error => exact h
  | endless => trivial

theorem mono {holds' : Nat → α → Prop} (h : outcome.Reports input holds)
    (himp : ∀ q a, holds q a → holds' q a) : outcome.Reports input holds' := by
  cases outcome with
  | success q a => exact ⟨h.1, himp q a h.2⟩
  | failure error => exact h
  | endless => trivial

end Outcome.Reports

/-! ### One step of a run -/

variable {again : Nat → Outcome ρ} {holds : Nat → α → Prop} {holds' : Nat → β → Prop}

theorem reports_satisfy {expected : String} {accept : Token → Option α} (hp : p ≤ input.size) :
    (run Token.shown input (.satisfy expected accept) again p).Reports input fun q a =>
      q = p + 1 ∧ ∃ t, input[p]? = some t ∧ accept t = some a := by
  rw [run_satisfy_eq]
  cases ht : input[p]? with
  | none => exact Nat.le_antisymm hp (Array.getElem?_eq_none_iff.mp ht)
  | some t =>
    dsimp only
    split
    next a ha =>
      obtain ⟨hlt, -⟩ := Array.getElem?_eq_some_iff.mp ht
      exact ⟨hlt, rfl, t, rfl, ha⟩
    next => exact ⟨t, ht, rfl⟩

theorem reports_map {f : α → β} {inner : Parser Token ρ α}
    (h : (run Token.shown input inner again p).Reports input holds)
    (hf : ∀ q a, holds q a → holds' q (f a)) :
    (run Token.shown input (.map f inner) again p).Reports input holds' := by
  rw [run_map_eq]
  exact h.andThen fun q a hq ha => ⟨hq, hf q a ha⟩

theorem reports_tryMap {f : α → Nat → Except ParseError β} {inner : Parser Token ρ α}
    (h : (run Token.shown input inner again p).Reports input holds)
    (hok : ∀ q a b, holds q a → f a p = .ok b → holds' q b)
    (herror : ∀ q a error, holds q a → f a p = .error error → Places input error) :
    (run Token.shown input (.tryMap f inner) again p).Reports input holds' := by
  rw [run_tryMap_eq]
  refine h.andThen fun q a hq ha => ?_
  split
  next b hb => exact ⟨hq, hok q a b ha hb⟩
  next error he => exact herror q a error ha he

theorem reports_within {name : String} {inner : Parser Token ρ α}
    (h : (run Token.shown input inner again p).Reports input holds) :
    (run Token.shown input (.within name inner) again p).Reports input holds := by
  rw [run_within_eq]
  split
  next error he =>
    rw [he] at h
    exact Places.within h name
  next => exact h

theorem reports_pair {first : Parser Token ρ α} {second : Parser Token ρ β}
    (ha : (run Token.shown input first again p).Reports input holds)
    (hb : ∀ q a, q ≤ input.size → holds q a →
      (run Token.shown input second again q).Reports input holds') :
    (run Token.shown input (.pair first second) again p).Reports input fun r ab =>
      (∃ q, holds q ab.1) ∧ holds' r ab.2 := by
  rw [run_pair_eq]
  refine ha.andThen fun q a hq hqa => (hb q a hq hqa).andThen fun r b hr hrb => ?_
  exact ⟨hr, ⟨q, hqa⟩, hrb⟩

theorem reports_preceded {first : Parser Token ρ α} {second : Parser Token ρ β}
    (ha : (run Token.shown input first again p).Reports input holds)
    (hb : ∀ q a, q ≤ input.size → holds q a →
      (run Token.shown input second again q).Reports input holds') :
    (run Token.shown input (.preceded first second) again p).Reports input holds' := by
  rw [run_preceded_eq]
  exact ha.andThen hb

theorem reports_triple {first : Parser Token ρ α} {second : Parser Token ρ β}
    {third : Parser Token ρ γ} {valid : α → Prop}
    (ha : (run Token.shown input first again p).Reports input fun _ => valid)
    (hb : ∀ q, q ≤ input.size →
      (run Token.shown input second again q).Reports input fun _ _ => True)
    (hc : ∀ q, q ≤ input.size →
      (run Token.shown input third again q).Reports input fun _ _ => True) :
    (run Token.shown input (.triple first second third) again p).Reports input fun _ abc =>
      valid abc.1 := by
  rw [run_triple_eq]
  refine ha.andThen fun q a hq hva => (hb q hq).andThen fun r b hr _ => ?_
  exact (hc r hr).andThen fun stop c hstop _ => ⟨hstop, hva⟩

theorem reports_delimited {left right : Parser Token ρ Unit} {inner : Parser Token ρ α}
    {valid : α → Prop} {opened : Nat → Unit → Prop}
    (hl : (run Token.shown input left again p).Reports input opened)
    (ha : ∀ q u, q ≤ input.size → opened q u →
      (run Token.shown input inner again q).Reports input fun _ => valid)
    (hr : ∀ q, q ≤ input.size →
      (run Token.shown input right again q).Reports input fun _ _ => True) :
    (run Token.shown input (.delimited left inner right) again p).Reports input fun _ => valid := by
  rw [run_delimited_eq]
  refine hl.andThen fun q u hq hu => (ha q u hq hu).andThen fun r a hrs hra => ?_
  exact (hr r hrs).andThen fun stop _ hstop _ => ⟨hstop, hra⟩

theorem reports_optional {inner : Parser Token ρ α} (hp : p ≤ input.size)
    (h : (run Token.shown input inner again p).Reports input fun _ _ => True) :
    (run Token.shown input (.optional inner) again p).Reports input fun _ _ => True := by
  rw [run_optional_eq]
  split
  next q a hq =>
    rw [hq] at h
    exact h
  next => trivial
  next error he =>
    rw [he] at h
    split
    · exact h
    · exact ⟨hp, trivial⟩

theorem reports_oneOf {alternatives : List (Parser Token ρ α)} (hp : p ≤ input.size)
    (h : ∀ q ∈ alternatives, (run Token.shown input q again p).Reports input holds) :
    (run Token.shown input (oneOf alternatives) again p).Reports input holds := by
  suffices hs : ∀ furthest : Option ParseError, (∀ e ∈ furthest, Places input e) →
      (chooseFrom p furthest alternatives.length fun i start =>
        run Token.shown input (alternatives.get i) again start).Reports input holds from
    hs none (by simp)
  induction alternatives with
  | nil => exact fun furthest hf => places_choiceError hf hp
  | cons q alternatives ih =>
    intro furthest hf
    obtain ⟨hq, hrest⟩ := List.forall_mem_cons.mp h
    simp only [List.length_cons, chooseFrom, List.get_cons_zero]
    split
    next r a hr =>
      rw [hr] at hq
      exact hq
    next => trivial
    next error he =>
      rw [he] at hq
      split
      · exact hq
      · exact ih hrest _ (places_further hf hq)

/-! ### Repetitions -/

theorem reports_repeatFor {step : Nat → Outcome α} {valid : α → Prop}
    (hstep : ∀ q, q ≤ input.size → (step q).Reports input fun _ => valid) (rounds : Nat)
    (hp : p ≤ input.size) :
    (repeatFor step rounds p).Reports input fun _ as => ∀ a ∈ as, valid a := by
  induction rounds generalizing p with
  | zero => trivial
  | succ rounds ih =>
    have h := hstep p hp
    rw [repeatFor]
    split
    next q a hq =>
      rw [hq] at h
      split
      · refine (ih h.1).andThen fun r as hr has => ⟨hr, ?_⟩
        exact List.forall_mem_cons.mpr ⟨h.2, has⟩
      · exact ⟨hp, by simp⟩
    next => trivial
    next error he =>
      rw [he] at h
      split
      · exact h
      · exact ⟨hp, by simp⟩

theorem reports_many {inner : Parser Token ρ α} {valid : α → Prop}
    (h : ∀ q, q ≤ input.size → (run Token.shown input inner again q).Reports input fun _ => valid)
    (hp : p ≤ input.size) :
    (run Token.shown input (.many inner) again p).Reports input fun _ as => ∀ a ∈ as, valid a := by
  rw [run_many_eq]
  exact reports_repeatFor h _ hp

theorem reports_separatedFor {step : Nat → Outcome α} {between : Nat → Outcome Unit}
    (hstep : ∀ q, q ≤ input.size → (step q).Reports input fun _ _ => True)
    (hbetween : ∀ q, q ≤ input.size → (between q).Reports input fun _ _ => True) (rounds : Nat)
    (hp : p ≤ input.size) :
    (separatedFor step between rounds p).Reports input fun _ _ => True := by
  induction rounds generalizing p with
  | zero => trivial
  | succ rounds ih =>
    have hb := hbetween p hp
    rw [separatedFor]
    split
    next => exact ⟨hp, trivial⟩
    next => trivial
    next q _ hq =>
      rw [hq] at hb
      have h := hstep q hb.1
      split
      next r a hr =>
        rw [hr] at h
        exact (ih h.1).andThen fun s as hs _ => ⟨hs, trivial⟩
      next => trivial
      next error he =>
        rw [he] at h
        split
        · exact h
        · exact ⟨hb.1, trivial⟩

theorem reports_separated {item : Parser Token ρ α} {separator : Parser Token ρ Unit}
    (hitem : ∀ q, q ≤ input.size →
      (run Token.shown input item again q).Reports input fun _ _ => True)
    (hseparator : ∀ q, q ≤ input.size →
      (run Token.shown input separator again q).Reports input fun _ _ => True)
    (hp : p ≤ input.size) :
    (run Token.shown input (.separated item separator) again p).Reports input fun _ _ => True := by
  have h := hitem p hp
  rw [run_separated_eq]
  split
  next q a hq =>
    rw [hq] at h
    exact (reports_separatedFor hitem hseparator _ h.1).andThen fun s as hs _ => ⟨hs, trivial⟩
  next => trivial
  next error he =>
    rw [he] at h
    split
    · exact h
    · exact ⟨hp, trivial⟩

end Parser

namespace Grammar

open GraphExpr.Parser

variable {registry : Registry} {input : Array Token} {again : Nat → Outcome Expr} {p : Nat}

/-! ### Rules -/

theorem reports_symbol (t : Token) (hp : p ≤ input.size) :
    (run Token.shown input (symbol t) again p).Reports input fun q _ => q = p + 1 :=
  reports_map (reports_satisfy hp) fun _ _ h => h.1

theorem reports_identifier (again : Nat → Outcome Expr) (hp : p ≤ input.size) :
    (run Token.shown input identifier again p).Reports input fun _ name =>
      input[p]? = some (.identifier name) := by
  refine reports_within ((reports_satisfy hp).mono ?_)
  rintro _ name ⟨-, t, ht, ha⟩
  cases t <;> simp at ha
  exact ha ▸ ht

theorem reports_parameter (hp : p ≤ input.size) :
    (run Token.shown input parameter again p).Reports input fun _ name =>
      ∃ t, input[p]? = some t ∧ t.Names name := by
  refine (reports_satisfy hp).mono ?_
  rintro _ name ⟨-, t, ht, ha⟩
  cases t <;> simp at ha
  · exact ⟨_, ht, .inr ⟨rfl, ha.symm⟩⟩
  · exact ⟨_, ht, .inl (ha ▸ rfl)⟩

theorem reports_literal (hp : p ≤ input.size) :
    (run Token.shown input literal again p).Reports input fun _ _ => True :=
  reports_within ((reports_satisfy hp).mono fun _ _ _ => trivial)

theorem reports_ignored {t : Token} {name : String} (hp : p ≤ input.size) :
    (run Token.shown input (ignored (.within name (equal Token.shown t)) : Rule Unit) again
      p).Reports input fun _ _ => True :=
  reports_map (reports_within (reports_satisfy hp)) fun _ _ _ => trivial

def ReportsNested (input : Array Token) (again : Nat → Outcome Expr) : Prop :=
  ∀ p, p ≤ input.size → (again p).Reports input fun _ _ => True

section Rules

variable (ha : ReportsNested input again)

include ha

theorem reports_recur (p : Nat) (hp : p ≤ input.size) :
    (run Token.shown input .recur again p).Reports input fun _ _ => True :=
  ha p hp

theorem reports_list (hp : p ≤ input.size) :
    (run Token.shown input list again p).Reports input fun _ _ => True := by
  have hitems : (run Token.shown input (.delimited (symbol .openBracket) (.separated .recur comma)
      closeBracket) again p).Reports input fun _ _ => True :=
    reports_delimited (reports_symbol _ hp)
      (fun q _ hq _ => reports_separated (reports_recur ha) (fun _ => reports_ignored) hq)
      fun _ => reports_ignored
  exact reports_within (reports_map hitems fun _ _ _ => trivial)

theorem reports_parenthesized (hp : p ≤ input.size) :
    (run Token.shown input parenthesized again p).Reports input fun _ _ => True :=
  reports_delimited (reports_symbol _ hp) (fun q _ hq _ => reports_recur ha q hq) fun _ =>
    reports_ignored

/-- A reserved parameter stands behind the parenthesis at the start of its lambda. -/
theorem reports_lambda (hp : p ≤ input.size) :
    (run Token.shown input lambda again p).Reports input fun _ _ => True := by
  have hparts (q : Nat) (_ : Unit) (hq : q ≤ input.size) (hopen : q = p + 1) :
      (run Token.shown input (.triple parameter (symbol .arrow) .recur) again q).Reports input
        fun _ abc => ∃ t, input[p + 1]? = some t ∧ t.Names abc.1 := by
    subst hopen
    exact reports_triple (reports_parameter hq)
      (fun r hr => (reports_symbol _ hr).mono fun _ _ _ => trivial) ha
  have hclose (q : Nat) (hq : q ≤ input.size) :
      (run Token.shown input closeParen again q).Reports input fun _ _ => True :=
    reports_ignored hq
  refine reports_within (reports_tryMap (reports_delimited (reports_symbol _ hp) hparts hclose)
    (fun _ _ _ _ _ => trivial) ?_)
  rintro _ ⟨name, _, body⟩ error ht he
  dsimp only at he
  split at he
  next hreserved =>
    cases he
    exact ⟨hreserved, ht⟩
  next => cases he

theorem reports_argument (hp : p ≤ input.size) :
    (run Token.shown input argument again p).Reports input fun _ _ => True := by
  refine reports_oneOf hp ?_
  simp only [List.forall_mem_cons, List.not_mem_nil, false_implies, implies_true, and_true]
  constructor
  · have hpair := reports_pair (reports_identifier again hp) fun q _ hq _ =>
      reports_preceded (reports_symbol .assign hq) fun r _ hr _ => reports_recur ha r hr
    exact reports_map hpair fun _ _ _ => trivial
  · exact reports_map (ha p hp) fun _ _ _ => trivial

theorem reports_arguments (hp : p ≤ input.size) :
    (run Token.shown input arguments again p).Reports input fun _ _ => True := by
  refine reports_within (reports_delimited (reports_symbol _ hp) (fun q _ hq _ => ?_) fun _ =>
    reports_ignored)
  exact reports_separated (fun _ => reports_argument ha) (fun _ => reports_ignored) hq

end Rules

/-! ### Calls -/

theorem resolve_eq_error {name : String} {position : Nat} {error : ParseError}
    (h : resolve registry name position = .error error) :
    error = .unknownFunction name position := by
  rw [resolve] at h
  split at h
  · cases h
  · cases h
    rfl

theorem namedOnly_eq_error {f : Function} {position : Nat} {as : List Argument}
    {error : ParseError} (h : namedOnly f position as = .error error) :
    error = .invalidArguments f.name .unexpectedPositional position := by
  fun_induction namedOnly f position as with
  | case1 => cases h
  | case2 key value rest ih => exact ih (map_eq_error h)
  | case3 =>
    cases h
    rfl

theorem splitArguments_eq_error {f : Function} {position : Nat} {as : List Argument}
    {error : ParseError} (h : splitArguments f position as = .error error) :
    error = .invalidArguments f.name .unexpectedPositional position := by
  unfold splitArguments at h
  split at h <;> exact namedOnly_eq_error (map_eq_error h)

theorem makeCall_eq_error {f : Function} {positional : Option Expr} {named : List (String × Expr)}
    {position : Nat} {error : ParseError}
    (h : makeCall f positional named position = .error error) :
    ∃ reason, error = .invalidArguments f.name reason position := by
  rw [makeCall] at h
  cases hcall : Expr.call? f positional named with
  | error reason =>
    rw [hcall] at h
    cases h
    exact ⟨reason, rfl⟩
  | ok e =>
    rw [hcall] at h
    cases h

def Postfix.Placed (input : Array Token) : Postfix → Prop
  | .attribute _ => True
  | .call f _ position => input[position]? = some (.identifier f.name)

theorem places_applyFollowUps {fs : List Postfix} {e : Expr} {error : ParseError}
    (hfs : ∀ f ∈ fs, f.Placed input) (h : applyFollowUps e fs = .error error) :
    Places input error := by
  fun_induction applyFollowUps e fs with
  | case1 => cases h
  | case2 e name rest ih => exact ih (List.forall_mem_cons.mp hfs).2 h
  | case3 e f named position rest ih =>
    obtain ⟨hf, hrest⟩ := List.forall_mem_cons.mp hfs
    rcases bind_eq_error h with h | ⟨e', -, h⟩
    · obtain ⟨reason, rfl⟩ := makeCall_eq_error h
      exact hf
    · exact ih e' hrest h

section Rules

variable (hnamed : registry.Named) (ha : ReportsNested input again)

include hnamed ha

theorem reports_call (hp : p ≤ input.size) :
    (run Token.shown input (call registry) again p).Reports input fun _ _ => True := by
  have hpair := reports_pair (reports_identifier again hp) fun q _ hq _ =>
    reports_arguments ha hq
  refine reports_tryMap hpair (fun _ _ _ _ _ => trivial) ?_
  rintro _ ⟨name, as⟩ error ⟨⟨_, hname⟩, -⟩ he
  rcases bind_eq_error he with hresolve | ⟨f, hf, hrest⟩
  · cases resolve_eq_error hresolve
    exact hname
  · rw [← hnamed _ _ (resolve_eq_ok hf)] at hname
    rcases bind_eq_error hrest with hsplit | ⟨⟨positional, named⟩, -, hcall⟩
    · cases splitArguments_eq_error hsplit
      exact hname
    · obtain ⟨reason, rfl⟩ := makeCall_eq_error hcall
      exact hname

theorem reports_followUp (hp : p ≤ input.size) :
    (run Token.shown input (followUp registry) again p).Reports input fun _ f =>
      f.Placed input := by
  have hpair (q : Nat) (_ : Unit) (hq : q ≤ input.size) (hdot : q = p + 1) :
      (run Token.shown input (.pair identifier (.optional arguments)) again q).Reports input
        fun _ parts => input[p + 1]? = some (.identifier parts.1) := by
    subst hdot
    refine (reports_pair (reports_identifier _ hq) fun r _ hr _ =>
      reports_optional hr (reports_arguments ha hr)).mono ?_
    rintro _ _ ⟨⟨_, hname⟩, -⟩
    exact hname
  refine reports_tryMap (reports_preceded (reports_symbol .dot hp) hpair) ?_ ?_
  · rintro _ ⟨name, as⟩ f hname hf
    cases as with
    | none =>
      cases hf
      trivial
    | some as =>
      obtain ⟨g, hg, hrest⟩ := bind_eq_ok hf
      obtain ⟨⟨positional, named⟩, -, hmake⟩ := bind_eq_ok hrest
      rw [← hnamed _ _ (resolve_eq_ok hg)] at hname
      dsimp only at hmake
      split at hmake
      next => cases hmake
      next =>
        cases hmake
        exact hname
  · rintro _ ⟨name, as⟩ error hname he
    cases as with
    | none => cases he
    | some as =>
      rcases bind_eq_error he with hresolve | ⟨g, hg, hrest⟩
      · cases resolve_eq_error hresolve
        exact hname
      · rw [← hnamed _ _ (resolve_eq_ok hg)] at hname
        rcases bind_eq_error hrest with hsplit | ⟨⟨positional, named⟩, -, hmake⟩
        · cases splitArguments_eq_error hsplit
          exact hname
        · dsimp only at hmake
          split at hmake
          next =>
            cases hmake
            exact hname
          next => cases hmake

theorem reports_primary (hp : p ≤ input.size) :
    (run Token.shown input (primary registry) again p).Reports input fun _ _ => True := by
  refine reports_within (reports_oneOf hp ?_)
  simp only [List.forall_mem_cons, List.not_mem_nil, false_implies, implies_true, and_true]
  exact ⟨reports_map (reports_literal hp) fun _ _ _ => trivial, reports_list ha hp,
    reports_map (reports_symbol _ hp) fun _ _ _ => trivial, reports_lambda ha hp,
    reports_parenthesized ha hp, reports_call hnamed ha hp,
    reports_map (reports_identifier _ hp) fun _ _ _ => trivial⟩

theorem reports_expressionBody (hp : p ≤ input.size) :
    (run Token.shown input (expressionBody registry) again p).Reports input fun _ _ => True := by
  have hpair := reports_pair (reports_primary hnamed ha hp) fun q _ hq _ =>
    reports_many (fun r hr => reports_followUp hnamed ha hr) hq
  refine reports_within (reports_tryMap hpair (fun _ _ _ _ _ => trivial) ?_)
  rintro _ ⟨e, fs⟩ error ⟨-, hfs⟩ he
  exact places_applyFollowUps hfs he

end Rules

/-- Errors of nested expressions are in place at every depth. -/
theorem reports_nested (hnamed : registry.Named) (d : Nat) :
    ReportsNested input (nested registry input d) := by
  induction d with
  | zero => exact fun _ _ => trivial
  | succ d ih =>
    intro p hp
    rw [nested_succ]
    exact reports_expressionBody hnamed ih hp

end Grammar

/-! ### Texts -/

/-- A token with the property starts at the byte. -/
def Token.StartsAt (tokens : List Token.Located) (position : Nat) (p : Token → Prop) : Prop :=
  ∃ t ∈ tokens, t.span.start.offset = position ∧ p t.token

/-- What the error of a text names stands where the error points, among the tokens of the text. -/
def ParseError.Aims (text : String) (tokens : List Token.Located) : ParseError → Prop
  | .unexpectedEnd _ position _ => position = text.utf8ByteSize
  | .unexpected _ found position _ | .trailingInput found position =>
    Token.StartsAt tokens position fun t => t.shown = found
  | .noAlternative position _ =>
    position = text.utf8ByteSize ∨ Token.StartsAt tokens position fun _ => True
  | .unknownFunction name position | .invalidArguments name _ position =>
    Token.StartsAt tokens position fun t => t = .identifier name
  | .reservedIdentifier name position =>
    Token.StartsAt tokens position fun t => t = .this ∧ name = "this"
  | .failure .. | .noToken _ => False

namespace Expr

variable {text : String} {tokens : List Token.Located}

theorem startsAt_offsetOf (p : Token → Prop) {index : Nat} {t : Token}
    (h : (tokens.map Token.Located.token).toArray[index]? = some t) (hp : p t) :
    Token.StartsAt tokens (offsetOf text tokens index) p := by
  rw [List.getElem?_toArray, List.getElem?_map] at h
  obtain ⟨located, hlocated, rfl⟩ := Option.map_eq_some_iff.mp h
  exact ⟨located, List.mem_of_getElem? hlocated, by rw [offsetOf, hlocated], hp⟩

theorem offsetOf_length : offsetOf text tokens tokens.length = text.utf8ByteSize := by
  rw [offsetOf, List.getElem?_eq_none (Nat.le_refl _)]

/-- The place among the tokens becomes the place in the text. -/
theorem aims_of_places (hread : Token.readAll text = .ok tokens) {error : ParseError}
    (h : Parser.Places (tokens.map Token.Located.token).toArray error) :
    (error.mapPosition (offsetOf text tokens)).Aims text tokens := by
  have hsize : (tokens.map Token.Located.token).toArray.size = tokens.length := by simp
  cases error with
  | unexpectedEnd message p context =>
    obtain rfl : p = tokens.length := h.trans hsize
    exact offsetOf_length
  | unexpected expected found p context =>
    obtain ⟨t, ht, hshown⟩ := h
    exact startsAt_offsetOf (·.shown = found) ht hshown
  | noAlternative p context =>
    rcases Nat.lt_or_eq_of_le (hsize ▸ h : p ≤ tokens.length) with hlt | rfl
    · have ht : (tokens.map Token.Located.token).toArray[p]? = some tokens[p].token := by
        rw [List.getElem?_toArray, List.getElem?_map, List.getElem?_eq_getElem hlt]
        rfl
      exact .inr (startsAt_offsetOf (fun _ => True) ht trivial)
    · exact .inl offsetOf_length
  | unknownFunction name p => exact startsAt_offsetOf (· = .identifier name) h rfl
  | invalidArguments name reason p => exact startsAt_offsetOf (· = .identifier name) h rfl
  | reservedIdentifier name p =>
    obtain ⟨hreserved, t, ht, hname⟩ := h
    rcases hname with rfl | ⟨rfl, rfl⟩
    · -- a reserved word is no identifier
      rw [List.getElem?_toArray, List.getElem?_map] at ht
      obtain ⟨located, hlocated, heq⟩ := Option.map_eq_some_iff.mp ht
      have hreadable := Token.readable_readAll hread _ (List.mem_of_getElem? hlocated)
      rw [heq] at hreadable
      obtain ⟨_, _, _, _, _, hfree⟩ := hreadable
      rw [hfree] at hreserved
      cases hreserved
    · exact startsAt_offsetOf (fun t => t = .this ∧ "this" = "this") ht ⟨rfl, rfl⟩
  | failure => cases h
  | noToken => cases h
  | trailingInput => cases h

theorem aims_of_parse (registry : Registry) (hnamed : registry.Named) {error : ParseError}
    (hread : Token.readAll text = .ok tokens) (h : parse registry text = .error error) :
    error.Aims text tokens := by
  have hreports : ((Grammar.expression registry).parse Token.shown
      (tokens.map Token.Located.token).toArray 0).Reports _ fun _ _ => True :=
    Grammar.reports_nested hnamed _ 0 (Nat.zero_le _)
  have hends : ((Grammar.expression registry).parse Token.shown
      (tokens.map Token.Located.token).toArray 0).Ends :=
    Grammar.ends_nested _ (Nat.lt_succ_self _)
  have hok : (Token.readAll text).mapError ParseError.noToken = .ok tokens := by rw [hread]; rfl
  simp only [parse, hok, bind, Except.bind] at h
  split at h
  next stop e hrun =>
    split at h
    next extra hextra =>
      cases h
      exact ⟨extra, List.mem_of_getElem? hextra, rfl, rfl⟩
    next => cases h
  next error' hrun =>
    cases h
    rw [hrun] at hreports
    exact aims_of_places hread hreports
  next hrun => exact absurd hrun hends

theorem exists_before_of_aims (hread : Token.readAll text = .ok tokens) {error : ParseError}
    (h : error.Aims text tokens) :
    ∃ before after, text = before ++ after ∧ error.position = before.utf8ByteSize := by
  have hend (hposition : error.position = text.utf8ByteSize) :
      ∃ before after, text = before ++ after ∧ error.position = before.utf8ByteSize :=
    ⟨text, "", String.append_empty.symm, hposition⟩
  have hstart {t : Token.Located} (ht : t ∈ tokens)
      (hposition : t.span.start.offset = error.position) :
      ∃ before after, text = before ++ after ∧ error.position = before.utf8ByteSize := by
    obtain ⟨before, lexeme, after, rfl, hstands, -⟩ := (Token.tiles_of_readAll hread).stands t ht
    refine ⟨before, lexeme ++ after, String.append_assoc, ?_⟩
    rw [← hposition, hstands.start, Position.offset_behind]
  cases error with
  | unexpectedEnd => exact hend h
  | noAlternative => exact h.elim hend fun ⟨_, ht, hposition, _⟩ => hstart ht hposition
  | failure => cases h
  | noToken => cases h
  | _ =>
    obtain ⟨t, ht, hposition, -⟩ := h
    exact hstart ht hposition

/-- An error of a text lies behind some characters of it. It is at a token of the text, which is
what the error names, or at the end of the text. Where the text is refused before it is parsed,
the error is at a character at which no token starts. -/
theorem parse_error_position (plugins : List Plugin) (text : String) {error : ParseError}
    (h : parse (.ofPlugins plugins) text = .error error) :
    (∃ before after, text = before ++ after ∧ error.position = before.utf8ByteSize) ∧
    match Token.readAll text with
    | .ok tokens => error.Aims text tokens
    | .error refusal => error = .noToken refusal ∧
        ∃ before c after, text = before ++ (String.singleton c ++ after) ∧
          error.position = before.utf8ByteSize ∧ c ∉ [' ', '\t', '\r', '\n'] ∧
          Token.read? (c :: after.toList) = none := by
  cases hread : Token.readAll text with
  | ok tokens =>
    have haims := aims_of_parse (.ofPlugins plugins) (Registry.named_ofPlugins plugins) hread h
    exact ⟨exists_before_of_aims hread haims, haims⟩
  | error refusal =>
    have herror : (Token.readAll text).mapError ParseError.noToken = .error (.noToken refusal) := by
      rw [hread]
      rfl
    simp only [parse, herror, bind, Except.bind] at h
    cases h
    obtain ⟨before, c, after, tokens, htext, -, -, hc, hnone, hspan⟩ :=
      Token.exists_of_readAll_error hread
    have hposition : (ParseError.noToken refusal).position = before.utf8ByteSize :=
      congrArg (fun span => span.start.offset) hspan
    exact ⟨⟨before, _, htext, hposition⟩, rfl, before, c, after, htext, hposition, hc, hnone⟩

/-- The name behind the dot of `"é".nope()` starts at the sixth byte. -/
theorem parse_error_position_behind_dot :
    parse (.ofPlugins []) "\"é\".nope()" = .error (.unknownFunction "nope" 5) ∧
    ∃ tokens, Token.readAll "\"é\".nope()" = .ok tokens ∧
      ParseError.Aims "\"é\".nope()" tokens (.unknownFunction "nope" 5) := by
  have h : parse (.ofPlugins []) "\"é\".nope()" = .error (.unknownFunction "nope" 5) := rfl
  have haims := (parse_error_position [] "\"é\".nope()" h).2
  exact ⟨h, _, rfl, haims⟩

end Expr

end GraphExpr
