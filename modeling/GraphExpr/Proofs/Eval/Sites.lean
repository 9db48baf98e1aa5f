import GraphExpr.Proofs.Eval.Lockstep

/-! # Sites

A graph tells nothing to the subjects of another site. Each service looks at the site, and the
descriptions of sets that are made for a subject are all of its own site, so no evaluation can
tell two graphs of other sites from each other.
-/

namespace GraphExpr

/-! ### Questions about another site -/

namespace Graph

variable {graph other : Graph} {site : SiteId}

section

variable (h : site ≠ graph.site)

include h

theorem onSite_of_ne {α : Type} (elsewhere value : α) :
    graph.onSite site elsewhere value = elsewhere :=
  if_neg h

theorem resolvedFacts_of_ne (id : EntryId) (property : PropertyId) :
    graph.resolvedFacts site id property = [] :=
  onSite_of_ne h _ _

theorem relationships_of_ne : graph.relationships site = fun _ => [] := by
  funext ids
  exact onSite_of_ne h _ _

theorem functions_of_ne : graph.functions site = [] :=
  onSite_of_ne h _ _

theorem selectRows_of_ne {f : Fragment} (hf : f.site = site) : graph.selectRows f = [] := by
  obtain ⟨_, clauses, entity, annotations, order, next⟩ := f
  subst hf
  rw [selectRows, if_neg h]

end

variable (h : site ≠ graph.site) (hother : site ≠ other.site)

include h hother

theorem concurs_of_ne (user : Option UserId) : graph.Concurs other ⟨site, user⟩ := by
  have hsame {α : Type} (elsewhere value value' : α) :
      graph.onSite site elsewhere value = other.onSite site elsewhere value' :=
    (onSite_of_ne h _ _).trans (onSite_of_ne hother _ _).symm
  constructor
  · funext id
    exact hsame _ _ _
  · funext id
    exact hsame _ _ _
  · exact hsame _ _ _
  · funext id
    exact hsame _ _ _
  · funext permission var
    exact hsame _ _ _
  · funext permission object
    exact hsame _ _ _

theorem execute_of_ne {q : Query} (hq : q.fragment.site = site) :
    graph.execute q = other.execute q := by
  rw [execute, execute, selectRows_of_ne h hq, selectRows_of_ne hother hq]
  cases q.terminal with
  | count => rfl
  | page skip limit => simp

end Graph

theorem Fragment.closed_site {site : SiteId} {visible : Var → Predicate}
    {relation : PropertyRecord → Prop} : Closed site visible relation fun f => f.site = site where
  visibleEntries := rfl
  ofIds ids := by
    unfold Fragment.ofIds
    dsimp only
    split <;> rfl
  traversed h _ _ _ := h
  filtered h _ := h
  excluded h _ := h
  combined h _ operation := by cases operation <;> exact h
  followed h _ := h
  detail _ _ := rfl
  reversed h _ := h

/-! ### Subjects of another site -/

/-- A site that is neither that of an environment nor that of another graph. -/
structure Elsewhere where
  environment : Environment
  graph : Graph
  site : SiteId
  ne : site ≠ environment.graph.site
  ne_other : site ≠ graph.site

/-- Everything may occur on such a site, as nothing is found for it. -/
def Elsewhere.frame (elsewhere : Elsewhere) : Frame where
  environment := elsewhere.environment
  graph := elsewhere.graph
  subject site _ _ := site = elsewhere.site
  entry _ := True
  source _ := True
  fragment f := f.site = elsewhere.site
  relation _ := True
  builtin _ := True
  owned := False
  expr _ := True
  concurs h := Graph.concurs_of_ne (h ▸ elsewhere.ne) (h ▸ elsewhere.ne_other) _
  view _ _ := trivial
  relation_of _ _ _ _ := trivial
  resolved h _ _ _ := by
    rw [Graph.resolvedFacts_of_ne (h ▸ elsewhere.ne),
      Graph.resolvedFacts_of_ne (h ▸ elsewhere.ne_other)]
  sketch _ h _ := by
    apply Drawing.sketch_withGraph
    · exact Graph.concurs_of_ne (h ▸ elsewhere.ne) (h ▸ elsewhere.ne_other) _
    · rw [Graph.relationships_of_ne (h ▸ elsewhere.ne),
        Graph.relationships_of_ne (h ▸ elsewhere.ne_other)]
  closed h := h ▸ Fragment.closed_site
  rows_eq hq := Graph.execute_of_ne elsewhere.ne elsewhere.ne_other hq
  rows_within _ row _ :=
    Row.within_of_forall (fun _ => trivial) (fun _ _ => ⟨trivial, trivial⟩) _ row
  expr_source _ _ := trivial
  expr_literal _ := trivial
  expr_item _ _ _ := trivial
  expr_object _ := trivial
  expr_positional _ _ _ := trivial
  expr_named _ _ _ := trivial
  expr_builtin _ := trivial
  expr_body _ := trivial
  expr_stored _ _ := trivial

/-! ### Evaluations -/

namespace Environment

/-- The value in full of a text for a user and an entry of a site, and the state in the end. -/
def answerText (environment : Environment) (site : SiteId) (user : Option UserId)
    (entry : Option EntryId) (text : String) (levels : Nat) :
    Option (Except Error Concrete × EvalState) :=
  match environment.open site user entry {} with
  | .error error => some (.error error, {})
  | .ok (opened, context, state) =>
    (Evaluator.ofDepth levels).answerSource context text opened state

/-- For a site that is neither that of one graph nor that of another one, every text has the same
result over both graphs: the same value, or the same error. -/
theorem answerText_withGraph (environment : Environment) (graph : Graph) {site : SiteId}
    (h : site ≠ environment.graph.site) (hother : site ≠ graph.site) (user : Option UserId)
    (entry : Option EntryId) (text : String) (levels : Nat) :
    environment.answerText site user entry text levels =
      (environment.withGraph graph).answerText site user entry text levels := by
  unfold answerText Environment.open
  rw [withGraph_outage, withGraph_graph, Graph.functions_of_ne h, Graph.functions_of_ne hother]
  cases environment.outage .siteFunctions with
  | some error => rfl
  | none =>
    let elsewhere : Elsewhere :=
      ⟨{ environment with registry := Registry.ofPlugins [] }, graph, site, h, hother⟩
    have hsubject : elsewhere.frame.subject site user environment.config.pageSize := rfl
    have hentry : ∀ id ∈ entry, elsewhere.frame.entry id := fun _ _ => trivial
    have hrespects := Evaluator.ofDepth_lockstep elsewhere.frame levels
    have hanswer := hrespects.answerSource (w := ({} : Meanings)) text fun w _ _ _ =>
      ⟨rfl, trivial, Scope.Twin.root hsubject hentry {} False.elim⟩
    exact Lockstep.Holds.run_eq hanswer (Lockstep.steady_root not_false)

def remote : Environment where
  graph := { site := ⟨"t"⟩, entries := [(⟨"a"⟩, ⟨⟨"a"⟩, "", "A", "", ⟨"t"⟩⟩)] }

/-- For another site than t and u there are no entries, whether the graph is that of t, which has
one, or an empty one of u. -/
theorem answerText_withGraph_allEntries :
    (⟨"s"⟩ : SiteId) ≠ remote.graph.site ∧ (⟨"s"⟩ : SiteId) ≠ ⟨"u"⟩ ∧ ∃ page s,
      remote.answerText ⟨"s"⟩ none (some ⟨"a"⟩) "allEntries()" 20 = some (.ok (.page page), s) ∧
        page.items = [] ∧
        remote.answerText ⟨"s"⟩ none (some ⟨"a"⟩) "allEntries()" 20 =
          (remote.withGraph { site := ⟨"u"⟩ }).answerText ⟨"s"⟩ none (some ⟨"a"⟩)
            "allEntries()" 20 := by
  have hsite : (⟨"s"⟩ : SiteId) ≠ remote.graph.site := by decide
  have hother : (⟨"s"⟩ : SiteId) ≠ ⟨"u"⟩ := by decide
  exact ⟨hsite, hother, _, _, rfl, rfl, answerText_withGraph remote { site := ⟨"u"⟩ } hsite hother
    none (some ⟨"a"⟩) "allEntries()" 20⟩

end Environment

end GraphExpr
