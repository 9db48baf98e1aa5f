import GraphExpr.Proofs.Eval.Collection
import GraphExpr.Proofs.Eval.Plain

/-! # Sets of entries are lazy

No query is executed when an expression for a set of entries is evaluated. The first page of its
value takes one query for the rows of the page, and another one that counts the entries only if the
page is full.
-/

namespace GraphExpr

/-! ### Annotations that entries can have -/

namespace Fragment

def Unreserved (f : Fragment) : Prop :=
  ∀ told ∈ f.annotations, told.1 ∉ Concrete.reservedKeys

variable {site : SiteId} {visible : Var → Predicate} {q : Fragment → Prop}

theorem closed_unreserved : Closed site visible (fun _ => True) Unreserved where
  visibleEntries := nofun
  ofIds ids := by
    unfold ofIds
    dsimp only
    split <;> nofun
  traversed {f} _ direction includeSelf limit told htold :=
    (follows_traversed visible f direction includeSelf limit told htold).1
  filtered h _ := h
  excluded h _ := h
  combined {f g} hf _ operation := by
    cases operation with
    | union => nofun
    | intersection | difference => exact hf
  followed {f property} _ _ told htold := (follows_followed visible f property told htold).1
  detail {property} _ _ told htold := (follows_followed visible _ property told htold).1
  reversed {f property} _ _ told htold := (follows_reversed visible f property told htold).1

theorem Closed.narrowed {relation : PropertyRecord → Prop}
    (h : Closed site visible relation q) {f : Fragment} (hf : q f)
    (kept excluded : Option (List EntryTypeId)) : q (f.narrowed kept excluded) := by
  cases kept with
  | none =>
    cases excluded with
    | none => exact hf
    | some types => exact h.excluded hf types
  | some keptTypes =>
    cases excluded with
    | none => exact h.filtered hf keptTypes
    | some types => exact h.excluded (h.filtered hf keptTypes) types

theorem Closed.compositional {environment : Environment} {context : Context}
    (h : Closed context.site (environment.graph.predicateFor context.subject .viewEntry)
      (fun _ => True) q) : Compositional environment context fun _ f => q f where
  visibleEntries _ := h.visibleEntries
  ofIds _ := h.ofIds _
  traversed hf _ _ := h.traversed hf _ _ _
  narrowed hf _ _ _ := h.narrowed hf _ _
  combined hf hg operation _ _ := h.combined hf hg operation
  followed hf _ _ _ := h.followed hf trivial
  reversed hf _ _ _ := h.reversed hf trivial

end Fragment

/-! ### What queries leave behind -/

variable {environment : Environment} {s s' : EvalState}

/-- A query is recorded, whatever the answer is and where it comes from. -/
theorem Store.executed_of_execute {query : Query} {o : Except Error (List Row)}
    (hrun : execute query environment s = some (o, s')) : s'.executed = query :: s.executed := by
  unfold execute at hrun
  rw [EvalM.bind_of_ok (EvalM.modify_run _)] at hrun
  rcases EvalM.bind_eq_some hrun with ⟨e, hgraph, -⟩ | ⟨graph, t, hgraph, hrun⟩
  · rw [consult_run] at hgraph
    obtain rfl := (Prod.mk.inj (Option.some.inj hgraph)).2
    rfl
  · rw [consult_run] at hgraph
    obtain rfl := (Prod.mk.inj (Option.some.inj hgraph)).2
    rw [EvalM.bind_of_ok EvalM.get_run] at hrun
    cases hprepared : s.prepared with
    | nil =>
      simp only [hprepared, answerOf_run] at hrun
      cases hrun
      rfl
    | cons answer rest =>
      simp only [hprepared] at hrun
      rw [EvalM.bind_of_ok EvalM.set_run] at hrun
      cases answer with
      | rows _ | refusal _ =>
        cases hrun
        rfl
      | fromGraph =>
        simp only [answerOf_run] at hrun
        cases hrun
        rfl

theorem EvalM.state_of_orFail {α : Type} {result : Except EvalError α} {o : Except Error α}
    (hrun : orFail result environment s = some (o, s')) : s' = s := by
  cases result <;> cases hrun <;> rfl

namespace EntrySet

variable {annotations : List (String × Annotation)}

theorem state_of_ofRow {row : Row} {o : Except Error Concrete}
    (hrun : ofRow annotations row environment s = some (o, s')) : s' = s := by
  unfold ofRow at hrun
  cases hid : (row.find? "id").bind Json.string? with
  | none =>
    rw [hid] at hrun
    cases hrun
    rfl
  | some id =>
    rw [hid] at hrun
    dsimp only at hrun
    split at hrun
    · cases hrun
      rfl
    · exact EvalM.state_of_orFail hrun

theorem mapM_ofRow_eq_ok {rows : List Row} {items : List Concrete}
    (hrun : rows.mapM (ofRow annotations) environment s = some (.ok items, s')) :
    s' = s ∧ items.length = rows.length := by
  induction rows generalizing s items with
  | nil =>
    cases hrun
    exact ⟨rfl, rfl⟩
  | cons row rows ih =>
    rw [List.mapM_cons] at hrun
    obtain ⟨item, s₁, hrow, hrun⟩ := EvalM.bind_eq_ok hrun
    obtain ⟨rest, s₂, hrest, hrun⟩ := EvalM.bind_eq_ok hrun
    cases hrun
    obtain rfl := state_of_ofRow hrow
    obtain ⟨hs, hlength⟩ := ih hrest
    exact ⟨hs, congrArg Nat.succ hlength⟩

theorem executed_of_count {set : EntrySet} {n : Nat}
    (hrun : set.count environment s = some (.ok n, s')) :
    s'.executed = ⟨set.fragment, .count⟩ :: s.executed := by
  obtain ⟨rows, s₁, hexecute, hread⟩ := EvalM.bind_eq_ok hrun
  unfold countOf at hread
  cases htold : rows.head?.bind fun row => (row.find? "count").bind Json.nat64? with
  | none =>
    rw [htold] at hread
    cases hread
  | some count =>
    rw [htold] at hread
    cases hread
    exact Store.executed_of_execute hexecute

/-! ### The queries for a page -/

def pageQuery (set : EntrySet) : Query :=
  ⟨set.fragment, .page 0 set.pageSize⟩

/-- The queries for the first page with so many rows, the last first: that for the rows, and then
one that counts the entries, unless there are fewer rows than the page has room for. -/
def pageQueries (set : EntrySet) (rows : Nat) : List Query :=
  if rows < set.pageSize then [set.pageQuery] else [⟨set.fragment, .count⟩, set.pageQuery]

/-- A set whose first page takes no more queries than it needs. Whatever the answers are, if a page
is given, then just these queries were executed. And where the graph answers and can be reached, a
page is given, always the same one after the same queries. -/
structure Pages (environment : Environment) (set : EntrySet) : Prop where
  executed : ∀ levels s page s',
    (Evaluator.ofDepth levels).force (.entrySet set) environment s = some (.ok page, s') →
      ∃ rows s₁, Store.execute set.pageQuery environment s = some (.ok rows, s₁) ∧
        s'.executed = set.pageQueries rows.length ++ s.executed
  repeated : environment.outage .execute = none → ∃ page, ∀ levels s, s.prepared = [] →
    let rows := environment.graph.execute set.pageQuery
    (Evaluator.ofDepth (levels + 1)).force (.entrySet set) environment s =
      some (.ok page, { s with executed := set.pageQueries rows.length ++ s.executed })

variable {set : EntrySet} {levels : Nat} (hpage : 0 < set.pageSize)

include hpage

theorem executed_of_force {page : Concrete}
    (hrun : (Evaluator.ofDepth levels).force (.entrySet set) environment s =
      some (.ok page, s')) :
    ∃ rows s₁, Store.execute set.pageQuery environment s = some (.ok rows, s₁) ∧
      s'.executed = set.pageQueries rows.length ++ s.executed := by
  cases levels with
  | zero => cases hrun
  | succ levels =>
    obtain ⟨items, s₁, hslice, hrest⟩ := EvalM.bind_eq_ok hrun
    have hrows : set.slice 0 set.pageSize environment s = some (.ok items, s₁) := hslice
    unfold slice at hrows
    rw [if_neg (Nat.ne_of_gt hpage)] at hrows
    obtain ⟨rows, s₂, hexecute, hread⟩ := EvalM.bind_eq_ok hrows
    obtain ⟨rfl, hlength⟩ := mapM_ofRow_eq_ok hread
    have hfirst := Store.executed_of_execute hexecute
    refine ⟨rows, s₁, hexecute, ?_⟩
    unfold pageQueries
    dsimp only at hrest
    split at hrest
    next hshort =>
      rw [if_pos (hlength ▸ hshort)]
      cases hrest
      exact hfirst
    next hfull =>
      rw [if_neg (hlength ▸ hfull)]
      obtain ⟨total, s₂, hcount, hrest⟩ := EvalM.bind_eq_ok hrest
      cases hrest
      have hcounted : set.count environment s₁ = some (.ok total, s') := hcount
      rw [executed_of_count hcounted, hfirst]
      rfl

variable (hreach : environment.outage .execute = none) (htold : set.fragment.Unreserved)

include hreach htold

theorem force_run (hs : s.prepared = []) :
    let rows := environment.graph.execute set.pageQuery
    (Evaluator.ofDepth (levels + 1)).force (.entrySet set) environment s =
      some (.ok (.page ⟨(set.items environment.graph).take set.pageSize, 0, set.pageSize,
        (set.items environment.graph).length, set.source⟩),
          { s with executed := set.pageQueries rows.length ++ s.executed }) := by
  intro rows
  have hslice : (Evaluator.ofDepth (levels + 1)).slice (.entrySet set) 0 set.pageSize environment
      s = _ := slice_run_of_ne_zero hreach htold hs 0 (Nat.ne_of_gt hpage)
  rw [List.drop_zero] at hslice
  have hitems : (set.items environment.graph).length =
      (environment.graph.selectRows set.fragment).length := List.length_map _
  have hrows : rows.length = ((set.items environment.graph).take set.pageSize).length := by
    rw [List.length_take, hitems]
    exact Graph.length_execute_page _ _ _ _
  refine (EvalM.bind_of_ok hslice).trans ?_
  dsimp only
  unfold pageQueries
  rw [hrows]
  split
  next hshort =>
    rw [List.length_take] at hshort ⊢
    rw [min_eq_right (by omega)]
    rfl
  next hfull =>
    let paged : EvalState := { s with executed := set.pageQuery :: s.executed }
    have hpaged : paged.prepared = [] := hs
    have hcount : set.count environment paged = _ := count_run hpaged set
    rw [size_of_executable hreach] at hcount
    refine (EvalM.bind_of_ok hcount).trans ?_
    rw [hitems]
    rfl

omit hreach in
theorem pages : set.Pages environment where
  executed _ _ _ _ hrun := executed_of_force hpage hrun
  repeated hreach := ⟨_, fun _ _ hs => force_run hpage hreach htold hs⟩

end EntrySet

/-! ### Evaluation executes nothing -/

/-- An expression for a set of entries is evaluated without any query in a scope in which nothing
is cached. The value of a call, unless it is an error, is a set with the page size of the scope,
and so is any expression as a set of entries; its first page takes no more queries than it needs.
The value of any other expression is known. -/
theorem Evaluator.pages_of_forEntries {context : Context} {start : EvalState}
    (hfresh : ∀ key, start.cached? context.cache key = none) (hpage : 0 < context.pageSize)
    {e : Expr} (he : e.Formed Literal.IsReadable environment.registry)
    (h : e.ForEntries environment.graph context.site) (levels : Nat) :
    (∀ o s, (ofDepth levels).evaluate context e environment start = some (o, s) →
      s.prepared = start.prepared ∧ s.executed = start.executed ∧
        ∀ v, o = .ok v → v.type ≠ .error →
          match e with
          | .call .. => ∃ set, v = .entrySet set ∧ set.pageSize = context.pageSize ∧
              set.Pages environment
          | _ => ∃ known, v = .concrete known) ∧
      ∀ o s, (ofDepth levels).evaluateEntrySet context e environment start = some (o, s) →
        s.prepared = start.prepared ∧ s.executed = start.executed ∧
          ∀ set, o = .ok set → set.pageSize = context.pageSize ∧ set.Pages environment := by
  let means : Expr → Fragment → Prop := fun _ f => f.Unreserved
  have hmeans : Fragment.Compositional environment context means :=
    Fragment.closed_unreserved.compositional
  -- what is prepared and what has been executed does not matter for what is cached
  have hstart : (Stage.faithful environment context means).Orderly (start.withStore [] []) :=
    Stage.caching_of_uncached rfl hfresh
  have hfirm := firm_evaluate hmeans levels e he (.forEntries h)
  have hpages (x : Expr) (set : EntrySet) (hset : set.Queries context means x) :
      set.pageSize = context.pageSize ∧ set.Pages environment :=
    ⟨hset.pageSize, EntrySet.pages (hset.pageSize ▸ hpage) hset.means⟩
  constructor
  · intro o s hrun
    obtain ⟨hprepared, hexecuted, hv⟩ :=
      hfirm.run_withStore start.prepared start.executed hstart hrun
    refine ⟨hprepared, hexecuted, fun v ho hsound => ?_⟩
    cases hv v ho with
    | error error => exact absurd rfl hsound
    | call hset => exact ⟨_, rfl, hpages _ _ hset⟩
    | _ => exact ⟨_, rfl⟩
  · intro o s hrun
    obtain ⟨hprepared, hexecuted, hset⟩ :=
      (firm_evaluateEntrySet hmeans hfirm h).run_withStore start.prepared start.executed hstart hrun
    exact ⟨hprepared, hexecuted, fun set ho => hpages e set (hset set ho)⟩

open Evaluator in
/-- The first page of two entries is full if pages have two entries, and then they are counted. -/
theorem Evaluator.pages_of_forEntries_lineage : ∃ v s set page s',
    let root := Context.root Environment.lineage.config ⟨"s"⟩ none (some ⟨"a"⟩) {}
    let context : Context := { root.1 with pageSize := 2 }
    (ofDepth 4).evaluate context .lineage Environment.lineage root.2 = some (.ok v, s) ∧
      s.executed = [] ∧ v = .entrySet set ∧ set.Pages Environment.lineage ∧
      (ofDepth 4).force v Environment.lineage s = some (.ok page, s') ∧
      s'.executed = [⟨set.fragment, .count⟩, ⟨set.fragment, .page 0 2⟩] := by
  let root := Context.root Environment.lineage.config ⟨"s"⟩ none (some ⟨"a"⟩) {}
  let context : Context := { root.1 with pageSize := 2 }
  have hentries : Expr.lineage.ForEntries Environment.lineage.graph context.site :=
    @Expr.ForEntries.combine _ _ .union _ _ _ (.traverse rfl .this) rfl (.entry _)
  have hfresh : ∀ key, root.2.cached? context.cache key = none := fun _ => rfl
  obtain ⟨set, s, page, s', hrun, hforce, hexecuted⟩ : ∃ set s page s',
      let root := Context.root Environment.lineage.config ⟨"s"⟩ none (some ⟨"a"⟩) {}
      let context : Context := { root.1 with pageSize := 2 }
      (ofDepth 4).evaluate context .lineage Environment.lineage root.2 =
        some (.ok (.entrySet set), s) ∧
      (ofDepth 4).force (.entrySet set) Environment.lineage s = some (.ok page, s') ∧
      s'.executed = [⟨set.fragment, .count⟩, ⟨set.fragment, .page 0 2⟩] := by
    refine ⟨_, _, _, _, rfl, rfl, ?_⟩
    rfl
  obtain ⟨-, hnone, hvalue⟩ :=
    (pages_of_forEntries hfresh (by decide) Expr.formed_lineage hentries 4).1 _ _ hrun
  obtain ⟨_, ⟨⟩, -, hpages⟩ := hvalue _ rfl nofun
  exact ⟨_, s, set, page, s', hrun, hnone, rfl, hpages, hforce, hexecuted⟩

/-- An entry literal is evaluated to the entry, and forcing this takes no query at all. -/
theorem Evaluator.not_pages_of_forEntries :
    let root := Context.root Environment.lineage.config ⟨"s"⟩ none none {}
    let e : Expr := .literal (.entry ⟨"a"⟩)
    e.ForEntries Environment.lineage.graph ⟨"s"⟩ ∧ 0 < root.1.pageSize ∧ ∃ v s,
      (ofDepth 4).evaluate root.1 e Environment.lineage root.2 = some (.ok v, s) ∧
        v.type ≠ .error ∧ (¬ ∃ set, v = .entrySet set) ∧
          (ofDepth 4).force v Environment.lineage s = some (.ok (.entry ⟨"a"⟩), s) ∧
            s.executed = [] :=
  ⟨.entry _, by decide, _, _, rfl, nofun, nofun, rfl, rfl⟩

end GraphExpr
