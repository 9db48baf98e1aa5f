import GraphExpr.Proofs.Eval.Mentions
import GraphExpr.Proofs.Eval.Plain
import GraphExpr.Proofs.Eval.Twins

/-! # Variables that do not matter

Two values are kin if they are made the same way in scopes that differ at most in their caches and
in variables that do not occur. Plain evaluation gives kin in such scopes. What is known besides of
lazy values and of pages with sources holds of all that it gives, if it holds of the results of
evaluations and of slices.
-/

namespace GraphExpr

/-- What may occur in kin, where evaluations are nested at most so often. -/
structure Kinship extends Idiom where
  nesting : Nat
  source_any : ∀ {s}, source s := by
    intros
    exact True.intro
  /-- What lazy values have to do with their sources. -/
  lazily : Value → Source → Prop
  lazily_evaluated : ∀ {n levels c e v s t}, n ≤ nesting → subject c.site c.user c.pageSize →
    (∀ id ∈ c.entry, entry id) → expr e →
    (Evaluator.plain n levels).evaluate c e environment s = some (.ok v, t) →
    v.isLazy = true → v.source? = some ⟨e, c.entry⟩ → lazily v ⟨e, c.entry⟩
  page_of_slice : ∀ {n levels v source offset count items pageSize total s t}, n ≤ nesting →
    lazily v source → v.source? = some source →
    (Evaluator.plain n levels).slice v offset count environment s = some (.ok items, t) →
    page ⟨items, offset, pageSize, total, v.source?⟩ source
  page_of_page : ∀ {n levels c builtin e named p s t}, subject c.site c.user c.pageSize →
    expr (.call (.builtin builtin) (some e) named) → builtin = .slice ∨ builtin = .annotate →
    (Evaluator.plain n levels).evaluate c e environment s = some (.ok (.concrete (.page p)), t) →
    ∀ source ∈ p.source, ∀ p', page p' source

section

variable (K : Kinship)

mutual

/-- Values that are made the same way. -/
inductive Value.Kin : Value → Value → Prop where
  | concrete {a : Concrete} : a.Within K.allowed → Value.Kin (.concrete a) (.concrete a)
  | entrySet {set : EntrySet} : K.fragment set.fragment →
      (∀ s ∈ set.source, K.lazily (.entrySet set) s) →
      Value.Kin (.entrySet set) (.entrySet set)
  | iterable {g g' : Generator} {pageSize : Nat} {source : Option Source} : Generator.Kin g g' →
      (∀ s ∈ source, K.lazily (.iterable g pageSize source) s) →
      Value.Kin (.iterable g pageSize source) (.iterable g' pageSize source)

inductive Generator.Kin : Generator → Generator → Prop where
  | mapped {v v' : Value} {parameter : String} {body : Expr} {c d : Context} :
      Value.Kin v v' → Scope.Kin (.lambda parameter body) c d →
      Generator.Kin (.mapped v ⟨parameter, body⟩ c) (.mapped v' ⟨parameter, body⟩ d)
  | sorted {v v' : Value} {key : Option Lambda} {descending : Bool} {c d : Context}
      {buffer buffer' : Nat} :
      Value.Kin v v' → (∀ l : Lambda, key = some l → Scope.Kin (.lambda l.parameter l.body) c d) →
      Generator.Kin (.sorted v key descending c buffer) (.sorted v' key descending d buffer')
  | annotated {v v' : Value} {annotations : List (String × Concrete)} :
      Value.Kin v v' → (∀ x ∈ annotations, x.2.Within K.allowed) →
      Generator.Kin (.annotated v annotations) (.annotated v' annotations)
  | detailed {set : EntrySet} {property : PropertyRecord} {c d : Context} :
      K.fragment set.fragment → K.relation property → K.Peers c d →
      Generator.Kin (.detailed set property c) (.detailed set property d)

/-- Scopes of one subject with the same current entry, in which the variables of an expression are
kin. -/
inductive Scope.Kin : Expr → Context → Context → Prop where
  | mk {e : Expr} {c d : Context} : K.Peers c d → (∀ id ∈ d.entry, K.entry id) → K.expr e →
      (∀ name, e.Free name → Bindings.Kin name c.bindings d.bindings) → Scope.Kin e c d

/-- A variable that is not bound, or whose values are kin. -/
inductive Bindings.Kin : String → Dict String Value → Dict String Value → Prop where
  | unbound {name : String} {b b' : Dict String Value} : b.find? name = none →
      b'.find? name = none → Bindings.Kin name b b'
  | bound {name : String} {b b' : Dict String Value} {v v' : Value} : b.find? name = some v →
      b'.find? name = some v' → Value.Kin v v' → Bindings.Kin name b b'

end

end

section

variable {K : Kinship} {e e' : Expr} {c d : Context}

namespace Scope.Kin

theorem peers (h : Scope.Kin K e c d) : K.Peers c d := by
  cases h
  assumption

theorem entry (h : Scope.Kin K e c d) : ∀ id ∈ d.entry, K.entry id := by
  cases h
  assumption

theorem expr (h : Scope.Kin K e c d) : K.expr e := by
  cases h
  assumption

theorem bindings (h : Scope.Kin K e c d) {name : String} (hname : e.Free name) :
    Bindings.Kin K name c.bindings d.bindings := by
  obtain ⟨-, -, -, hb⟩ := h
  exact hb name hname

theorem part (h : Scope.Kin K e c d) (he : K.expr e')
    (hfree : ∀ {name}, e'.Free name → e.Free name) : Scope.Kin K e' c d :=
  .mk h.peers h.entry he fun _ hname => h.bindings (hfree hname)

theorem withCaches (h : Scope.Kin K e c d) (cache cache' : Nat) :
    Scope.Kin K e { c with cache } { d with cache := cache' } := by
  obtain ⟨⟨hsame, hsubject⟩, hentry, he, hb⟩ := h
  exact .mk ⟨⟨hsame.site, hsame.user, hsame.entry, hsame.pageSize⟩, hsubject⟩ hentry he hb

theorem entryScope (h : Scope.Kin K e c d) {id : EntryId} (hid : K.entry id) (he : K.expr e') :
    Scope.Kin K e' (c.entryScope id) (d.entryScope id) := by
  obtain ⟨⟨hsame, hsubject⟩, -, -, -⟩ := h
  refine .mk ⟨⟨hsame.site, hsame.user, rfl, hsame.pageSize⟩, hsubject⟩ ?_ he
    fun _ _ => .unbound rfl rfl
  rintro _ ⟨⟩
  exact hid

theorem bind {parameter : String} {body : Expr} (h : Scope.Kin K (.lambda parameter body) c d)
    {x : Concrete} (hx : x.Within K.allowed) :
    Scope.Kin K body { c with bindings := Dict.merge c.bindings [(parameter, .concrete x)] }
      { d with bindings := Dict.merge d.bindings [(parameter, .concrete x)] } := by
  obtain ⟨⟨hsame, hsubject⟩, hentry, he, hb⟩ := h
  refine .mk ⟨⟨hsame.site, hsame.user, hsame.entry, hsame.pageSize⟩, hsubject⟩ hentry
    (K.expr_body he) fun name hname => ?_
  by_cases hparameter : name = parameter
  · subst hparameter
    exact .bound (Dict.find?_insert_self _ _ _) (Dict.find?_insert_self _ _ _) (.concrete hx)
  · have hkept (b : Dict String Value) :
        (Dict.merge b [(parameter, Value.concrete x)]).find? name = b.find? name :=
      Dict.find?_insert_of_ne _ _ hparameter
    cases hb name (.body hparameter hname) with
    | unbound hc hd => exact .unbound ((hkept _).trans hc) ((hkept _).trans hd)
    | bound hc hd hv => exact .bound ((hkept _).trans hc) ((hkept _).trans hd) hv

end Scope.Kin

theorem Value.Kin.withSource {v v' : Value} (h : v.Kin K v') {source : Source}
    (hsource : (v.withDefaultSource source).isLazy = true →
      (v.withDefaultSource source).source? = some source →
      K.lazily (v.withDefaultSource source) source) :
    (v.withDefaultSource source).Kin K (v'.withDefaultSource source) := by
  cases h with
  | concrete ha => exact .concrete ha
  | @entrySet set hset hknown =>
    unfold Value.withDefaultSource at hsource ⊢
    split
    next hnone =>
      rw [if_pos hnone] at hsource
      refine .entrySet hset fun s hs => ?_
      cases hs
      exact hsource rfl rfl
    next => exact .entrySet hset hknown
  | @iterable g g' pageSize source' hg hknown =>
    cases source' with
    | none =>
      refine .iterable hg fun s hs => ?_
      cases hs
      exact hsource rfl rfl
    | some _ => exact .iterable hg hknown

theorem Value.Kin.sorted_of {v v' : Value} (h : v.Kin K v') (hs : v.IsSorted) :
    ∃ inner inner' key descending c d buffer buffer' pageSize source,
      v = .iterable (.sorted inner key descending c buffer) pageSize source ∧
      v' = .iterable (.sorted inner' key descending d buffer') pageSize source ∧
      inner.Kin K inner' ∧
      ∀ l : Lambda, key = some l → Scope.Kin K (.lambda l.parameter l.body) c d := by
  cases h with
  | concrete => exact hs.elim
  | entrySet => exact hs.elim
  | iterable hg =>
    cases hg with
    | mapped => exact hs.elim
    | annotated => exact hs.elim
    | detailed => exact hs.elim
    | sorted hv hkey => exact ⟨_, _, _, _, _, _, _, _, _, _, rfl, rfl, hv, hkey⟩

end

def Kinship.relations (K : Kinship) : Relations where
  toRealm := K.toRealm
  World := Unit
  Extends _ _ := True
  value _ v v' := v.Kin K v'
  scope _ e c d := Scope.Kin K e c d
  refl _ := trivial
  trans _ _ := trivial
  value_mono _ h := h
  scope_mono _ h := h
  value_linked h := by
    cases h with
    | concrete ha => exact .concrete ha
    | entrySet hset _ => exact .entrySet hset fun _ _ => K.source_any
    | iterable hg _ =>
      refine .iterable ?_ fun _ _ => K.source_any
      cases hg with
      | mapped hv hs => exact .mapped hv hs
      | sorted hv hkey => exact .sorted hv hkey
      | annotated hv ha => exact .annotated hv ha
      | detailed hset hp hpeers => exact .detailed hset hp hpeers
  value_concrete ha := .concrete ha
  value_entrySet hset hsource := .entrySet hset (by simp [hsource])
  value_mapped hv hs _ := .iterable (.mapped hv hs) (by simp)
  value_annotated hv ha _ := .iterable (.annotated hv ha) (by simp)
  value_detailed hset hp hs _ := .iterable (.detailed hset hp hs.peers) (by simp)
  scope_peers h := h.peers
  scope_literal h := K.expr_literal h.expr
  scope_this h id hid := h.entry id (h.peers.entry ▸ hid)
  scope_var h := by
    cases h.bindings .var with
    | unbound hc hd => exact .inl ⟨hc, hd⟩
    | bound hc hd hv => exact .inr ⟨_, _, hc, hd, hv⟩
  scope_item h e he := h.part (K.expr_item h.expr e he) (.item he)
  scope_object h := h.part (K.expr_object h.expr) .object
  scope_positional := by
    rintro _ f _ named c d h e ⟨⟩
    exact h.part (K.expr_positional h.expr e rfl) .positional
  scope_named h a ha := h.part (K.expr_named h.expr a ha) (.named ha)
  scope_builtin h := K.expr_builtin h.expr
  scope_call h := K.expr_call h.expr
  scope_apply h hx := h.bind hx
  scope_stored h hid htext hparse := h.entryScope hid (K.expr_stored htext hparse)

namespace Kinship

variable (K : Kinship)

/-- Whenever the left computation finishes, the right one finishes with a related result. -/
def Holds {α β : Type} (r : α → β → Prop) (x : EvalM α) (y : EvalM β) : Prop :=
  ∀ s t, s.prepared = [] → t.prepared = [] → ∀ o s', x K.environment s = some (o, s') →
    s'.prepared = [] ∧ ∃ o' t', y K.other t = some (o', t') ∧ t'.prepared = [] ∧ Agree r o o'

variable {K} {α β γ δ : Type} {r : α → β → Prop} {q : γ → δ → Prop}

theorem Holds.of_run {x : EvalM α} {y : EvalM β}
    (h : ∀ s t, s.prepared = [] → t.prepared = [] → ∃ o o' s' t',
      x K.environment s = some (o, s') ∧ y K.other t = some (o', t') ∧ s'.prepared = [] ∧
      t'.prepared = [] ∧ Agree r o o') : K.Holds r x y := by
  intro s t hs ht o s' hrun
  obtain ⟨o₁, o', s₁, t', hx, hy, hs', ht', hagree⟩ := h s t hs ht
  rw [hx] at hrun
  cases hrun
  exact ⟨hs', o', t', hy, ht', hagree⟩

theorem Holds.of_outcome {x : EvalM α} {y : EvalM β} {o : Except Error α} {o' : Except Error β}
    (hx : ∀ s, x K.environment s = some (o, s)) (hy : ∀ t, y K.other t = some (o', t))
    (h : Agree r o o') : K.Holds r x y :=
  .of_run fun s t hs ht => ⟨o, o', s, t, hx s, hy t, hs, ht, h⟩

theorem Holds.bind {x : EvalM α} {y : EvalM β} {f : α → EvalM γ} {g : β → EvalM δ}
    (h : K.Holds r x y) (hf : ∀ a b, r a b → K.Holds q (f a) (g b)) :
    K.Holds q (x >>= f) (y >>= g) := by
  intro s t hs ht o s'' hrun
  rcases EvalM.bind_eq_some hrun with ⟨e, hx, rfl⟩ | ⟨a, s', hx, hrest⟩
  · obtain ⟨hs', o', t', hy, ht', hagree⟩ := h s t hs ht _ _ hx
    cases hagree
    exact ⟨hs', _, t', EvalM.bind_of_error hy, ht', .error e⟩
  · obtain ⟨hs', o', t', hy, ht', hagree⟩ := h s t hs ht _ _ hx
    cases hagree with
    | ok hab =>
      rw [EvalM.bind_of_ok hy]
      exact hf _ _ hab s' t' hs' ht' _ _ hrest

theorem Holds.ok {x : EvalM α} {y : EvalM β} (h : K.Holds r x y) {s s' t : EvalState}
    (hs : s.prepared = []) (ht : t.prepared = []) {a : α}
    (hx : x K.environment s = some (.ok a, s')) : s'.prepared = [] ∧
      ∃ b t', y K.other t = some (.ok b, t') ∧ t'.prepared = [] ∧ r a b := by
  obtain ⟨hs', o, t', hy, ht', hagree⟩ := h s t hs ht _ _ hx
  cases hagree with
  | ok hab => exact ⟨hs', _, t', hy, ht', hab⟩

theorem Holds.gives {x : EvalM α} {y : EvalM β} (h : K.Holds r x y) :
    K.Holds (fun a b => r a b ∧ ∃ s t, x K.environment s = some (.ok a, t)) x y := by
  intro s t hs ht o s' hrun
  obtain ⟨hs', o', t', hy, ht', hagree⟩ := h s t hs ht o s' hrun
  refine ⟨hs', o', t', hy, ht', ?_⟩
  cases hagree with
  | ok hab => exact .ok ⟨hab, s, s', hrun⟩
  | error e => exact .error e

theorem Holds.execute {query : Query} (hq : K.fragment query.fragment) :
    K.Holds (fun rows rows' => rows = rows' ∧ K.environment.outage .execute = none ∧
      rows = K.environment.graph.execute query) (Store.execute query) (Store.execute query) := by
  apply Holds.of_run
  intro s t hs ht
  have hleft : Store.execute query K.environment s = _ := Store.execute_run hs query
  have hright : Store.execute query K.other t = _ := Store.execute_run ht query
  refine ⟨_, _, _, _, hleft, hright, hs, ht, ?_⟩
  rw [Environment.withGraph_outage, Environment.withGraph_graph, ← K.rows_eq hq]
  cases K.environment.outage .execute with
  | some e => exact .error _
  | none => exact .ok ⟨rfl, rfl, rfl⟩

theorem Holds.sortedLater {v v' : Value} {key : Option Lambda} {c d : Context}
    (descending : Bool) (hv : v.Kin K v')
    (hkey : ∀ l : Lambda, key = some l → Scope.Kin K (.lambda l.parameter l.body) c d) :
    K.Holds (fun g g' => ∀ pageSize, Value.Kin K (.iterable g pageSize none)
      (.iterable g' pageSize none)) (Evaluator.sortedLater v key descending c)
      (Evaluator.sortedLater v' key descending d) := by
  apply Holds.of_run
  intro s t hs ht
  refine ⟨_, _, _, _, rfl, rfl, hs, ht, .ok fun pageSize => .iterable ?_ (by simp)⟩
  exact .sorted hv fun l hl => (hkey l hl).withCaches _ _

theorem Holds.alone {x : EvalM α} {y : EvalM β} (h : K.Holds r x y) :
    K.Holds r x.alone y.alone := by
  intro s t hs ht o s' hrun
  obtain ⟨rfl, s₁, hx⟩ := EvalM.alone_eq_some hrun
  obtain ⟨-, o', t', hy, -, hagree⟩ := h {} {} rfl rfl o s₁ hx
  exact ⟨hs, o', t, EvalM.alone_of_some hy, ht, hagree⟩

end Kinship

/-- Plain evaluations in scopes that differ in variables that do not matter. -/
def Kinship.comparison (K : Kinship) : Comparison Unit where
  toRelations := K.relations
  sized := False
  Gives x a := ∃ s t, x () K.environment s = some (.ok a, t)
  Holds w r x y := K.Holds (r w) (x ()) y
  pure h := .of_outcome (fun _ => rfl) (fun _ => rfl) (.ok h)
  bind h hf := Kinship.Holds.bind h fun a b hab => hf () a b trivial hab
  gives h := Kinship.Holds.gives h
  raise {α β w r e} _ := .of_outcome (fun _ => rfl) (fun _ => rfl) (.error e)
  read h := h fun _ => K.environment.outage
  consult {α β w r service f g} _ h := .of_outcome (fun _ => Store.consult_run service f)
    (fun _ => Store.consult_run service g) <| by
      rw [Environment.withGraph_outage]
      cases K.environment.outage service with
      | some e => exact .error _
      | none => exact .ok h
  answer hx hy _ hr := .of_outcome (hx K.environment.outage) hy
    (.of_ok fun a ha => hr a (Store.eq_ok_of_stopped ha))
  execute hq := .execute hq
  detached h := .of_run fun s t hs ht =>
    ⟨_, _, _, _, rfl, rfl, hs, ht, .ok (h.withCaches _ _)⟩
  sortedLater descending hv _ hkey := .sortedLater descending hv hkey

/-! ### Plain evaluators -/

namespace Kinship

variable {K : Kinship} {n levels : Nat}

theorem agree_settled {e : Expr} {c d : Context} (hs : Scope.Kin K e c d)
    {o o' : Except Error Value} (h : Agree (Value.Kin K) o o')
    (hlazily : ∀ v, Evaluator.settled c e o = .ok v → v.isLazy = true →
      v.source? = some ⟨e, c.entry⟩ → K.lazily v ⟨e, c.entry⟩) :
    Agree (Value.Kin K) (Evaluator.settled c e o) (Evaluator.settled d e o') := by
  have hentry : c.entry = d.entry := hs.peers.entry
  refine h.settled (fun _ => .concrete trivial) fun v v' ho hv => ?_
  subst ho
  rw [← hentry]
  exact hv.withSource (hlazily _ rfl)

section

variable (hn : n ≤ K.nesting)

include hn

theorem page_of_gives {w : Unit} {v v' : Value} {offset count pageSize total : Nat}
    {items : List Concrete} (hv : K.comparison.value w v v') (hlazy : v.isLazy = true)
    (hgives : K.comparison.Gives (fun _ => (Evaluator.plain n levels).slice v offset count) items) :
    ∀ s ∈ v.source?, K.page ⟨items, offset, pageSize, total, v.source?⟩ s := by
  obtain ⟨s, t, hrun⟩ := hgives
  intro source hsource
  have hknown : K.lazily v source := by
    cases hv with
    | concrete _ => cases hlazy
    | entrySet _ hsources => exact hsources source hsource
    | iterable _ hsources => exact hsources source hsource
  exact K.page_of_slice hn hknown hsource hrun

theorem evaluate (ih : ∀ m ≤ K.nesting, K.comparison.Respects (fun _ => Evaluator.plain m levels)
      (Evaluator.plain m levels)) {e : Expr} {c d : Context} (hs : Scope.Kin K e c d) :
    K.Holds (Value.Kin K) ((Evaluator.plain n (levels + 1)).evaluate c e)
      ((Evaluator.plain n (levels + 1)).evaluate d e) := by
  intro s t hs' ht o s' hrun
  have hleft := hrun
  obtain ⟨rfl, m, l, p, s₁, rfl, hl, rfl, hnode⟩ := Evaluator.plain_evaluate_eq_some hrun
  cases hl
  have hholds : K.Holds (Value.Kin K)
      ((Evaluator.plain m levels).evaluateNode { c with cache := 0 } e)
      ((Evaluator.plain m levels).evaluateNode { d with cache := 0 } e) :=
    (ih m (by omega)).evaluateNode (w := ()) (hs.withCaches 0 0)
  obtain ⟨-, p', t₁, hnode', -, hagree⟩ := hholds {} {} rfl rfl p s₁ hnode
  refine ⟨hs', _, t, Evaluator.plain_evaluate_of_node hnode', ht, agree_settled hs hagree ?_⟩
  intro v hv hlazy hsource
  obtain ⟨⟨hsame, hsubject⟩, hentry, he, -⟩ := hs
  rw [hv] at hleft
  rw [← hsame.site, ← hsame.user, ← hsame.pageSize] at hsubject
  exact K.lazily_evaluated hn hsubject (hsame.entry ▸ hentry) he hleft hlazy hsource

end

theorem reshape {w : Unit} {builtin : Builtin} {e : Expr} {named : List (String × Expr)}
    {c d : Context} {page : Page Concrete}
    (hs : K.comparison.scope w (.call (.builtin builtin) (some e) named) c d)
    (hbuiltin : builtin = .slice ∨ builtin = .annotate)
    (hgives : K.comparison.Gives (fun _ => (Evaluator.plain n levels).evaluate c e)
      (.concrete (.page page))) : ∀ s ∈ page.source, ∀ page', K.page page' s := by
  obtain ⟨s, t, hrun⟩ := hgives
  obtain ⟨⟨hsame, hsubject⟩, -, he, -⟩ := hs
  rw [← hsame.site, ← hsame.user, ← hsame.pageSize] at hsubject
  exact K.page_of_page hsubject he hbuiltin hrun

section

variable (h : K.comparison.Respects (fun _ => Evaluator.plain n levels) (Evaluator.plain n levels))

include h

theorem pulls (hn : n ≤ K.nesting) : K.comparison.Pulls
    (fun _ => Evaluator.plain n (levels + 1)) (Evaluator.plain n (levels + 1)) fun _ => True where
  count {w v v'} hv _ := by
    by_cases hsorted : v.IsSorted
    · obtain ⟨inner, inner', key, descending, c, d, buffer, buffer', pageSize, source, rfl, rfl,
        hinner, -⟩ := hv.sorted_of hsorted
      rw [Evaluator.plain_count_sorted, Evaluator.plain_count_sorted]
      exact Holds.alone (Comparison.weaken (h.count hinner trivial) fun _ _ _ _ hab =>
        ⟨hab.1, False.elim⟩)
    · exact Holds.alone (h.toPulls.countStep hv (fun _ _ => trivial) hsorted)
  slice {w v v'} hv _ offset count := by
    by_cases hsorted : v.IsSorted
    · obtain ⟨inner, inner', key, descending, c, d, buffer, buffer', pageSize, source, rfl, rfl,
        hinner, hkey⟩ := hv.sorted_of hsorted
      rw [Evaluator.plain_slice_sorted, Evaluator.plain_slice_sorted]
      have hsort := h.toPulls.sortAll h.toApplies (w := w) hinner trivial hkey descending
      refine Holds.alone (Kinship.Holds.bind hsort ?_)
      rintro items _ ⟨rfl, hitems, -⟩
      refine K.comparison.pure (w := w) ⟨rfl, fun x hx => ?_, False.elim⟩
      exact hitems x (List.mem_of_mem_drop (List.mem_of_mem_take hx))
    · exact Holds.alone
        (h.toPulls.sliceStep h.toApplies hv (fun _ _ => trivial) hsorted offset count)
  collectFrom hv _ hc hpulled := Holds.alone (h.toPulls.collectStep hv trivial hc hpulled)
  page hv hlazy hgives := page_of_gives hn hv hlazy hgives

end

/-- Plain evaluation gives kin in scopes in which the free variables are kin. -/
theorem respects (K : Kinship) (levels : Nat) : ∀ n ≤ K.nesting,
    K.comparison.Respects (fun _ => Evaluator.plain n levels) (Evaluator.plain n levels) := by
  induction levels with
  | zero =>
    intro n hn
    have hnever {α β : Type} {r : α → β → Prop} {y : EvalM β} :
        K.Holds r EvalM.exhausted y := by
      intro s t _ _ o s' hrun
      cases hrun
    exact { apply := fun _ _ => hnever, count := fun _ _ => hnever, slice := fun _ _ _ _ => hnever,
            collectFrom := fun _ _ _ _ => hnever, evaluate := fun _ => hnever,
            page := @page_of_gives K n 0 hn,
            reshape := @reshape K n 0 }
  | succ levels ih =>
    intro n hn
    exact { toPulls := pulls (ih n hn) hn
            apply := fun hs hx => Holds.alone ((ih n hn).applyStep hs hx)
            evaluate := fun hs => evaluate hn ih hs
            reshape := fun hs hbuiltin hgives => reshape hs hbuiltin hgives }

end Kinship

end GraphExpr
