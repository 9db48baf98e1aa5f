import GraphExpr.Proofs.Eval.Collection
import GraphExpr.Proofs.Eval.Refinement

/-! # The order of storage

The records of a fixture may stand in any order: an expression for a set of entries is evaluated to
the same value, and all items of this are the same entries in the same order, with the same
distances and the same ranks. Other things that are told of an entry are those of one of its facts,
and which one that is may depend on the order.
-/

namespace GraphExpr

/-! ### Entries in the same places -/

def Concrete.told? (name : String) : Concrete → Option Concrete
  | .annotated _ annotations => Dict.find? annotations name
  | _ => none

/-- The items are the same entry, with the same distance and the same rank, if they have one. -/
structure Concrete.SamePlace (a b : Concrete) : Prop where
  entry : a.unannotated = b.unannotated
  distance : a.told? "distance" = b.told? "distance"
  rank : a.told? "rank" = b.told? "rank"

theorem Concrete.SamePlace.refl (a : Concrete) : a.SamePlace a :=
  ⟨rfl, rfl, rfl⟩

namespace EntrySet

variable {graph : Graph} {annotations : List (String × Annotation)} {selected : EntryId × Bindings}
  {var : Var} {lead : Option Scalar} {r : EntryId × ℤ}

theorem find?_told (h : selected.2.Stands graph var lead r)
    (hfollows : ∀ told ∈ annotations, Annotation.Follows lead told) {told : String × Annotation}
    (htold : told ∈ annotations) (hname : told.1 = "distance" ∨ told.1 = "rank") :
    Dict.find? (Dict.ofList (annotations.map fun told =>
      (told.1, graph.scalar selected.2 told.2.scalar))) told.1 = some (Json.int r.2) := by
  obtain ⟨found, hfound⟩ := Dict.exists_of_mem_ofList (List.mem_map_of_mem (f := fun told :
    String × Annotation => (told.1, graph.scalar selected.2 told.2.scalar)) htold)
  obtain ⟨other, hother, hsame⟩ := List.mem_map.mp (Dict.mem_ofList (Dict.mem_of_find? hfound))
  obtain ⟨hkey, rfl⟩ := Prod.mk.inj hsame
  have hlead := (hfollows other hother).2 (hkey ▸ hname)
  have hnumber := h.number
  rw [hlead] at hnumber
  exact hfound.trans (congrArg some hnumber)

theorem told?_item (h : selected.2.Stands graph var lead r)
    (hfollows : ∀ told ∈ annotations, Annotation.Follows lead told) {name : String}
    (hname : name = "distance" ∨ name = "rank") :
    (item graph annotations selected).told? name = annotations.findSome? fun told =>
      if told.1 = name then told.2.reviver.revive? (Json.int r.2) else none := by
  have hitem : (item graph annotations selected).told? name =
      Dict.find? (annotationsOf annotations (graph.project annotations selected)) name := by
    unfold item
    dsimp only
    split
    next hempty =>
      rw [List.isEmpty_iff.mp hempty]
      rfl
    next => rfl
  rw [hitem]
  unfold annotationsOf
  rw [Graph.find?_project_annotations]
  simp only [Option.bind_eq_bind, Option.bind_some, Json.object?]
  refine Dict.find?_filterMap fun told htold => ?_
  by_cases hsame : told.1 = name
  · subst hsame
    rw [if_pos rfl, find?_told h hfollows htold hname, Option.bind_some]
    cases told.2.reviver.revive? (Json.int r.2) with
    | none =>
      refine .inr ⟨rfl, ?_⟩
      rintro _ ⟨⟩
    | some value => exact .inl ⟨value, rfl, rfl⟩
  · rw [if_neg hsame]
    refine .inr ⟨rfl, fun entry hentry => ?_⟩
    obtain ⟨_, -, hrevived⟩ := Option.bind_eq_some_iff.mp hentry
    obtain ⟨_, -, hvalue⟩ := Option.bind_eq_some_iff.mp hrevived
    cases hvalue
    exact Ne.symm hsame

/-- Graphs in which a fragment ranks the same entries, and which have the same names, give a set the
same entries in the same places. -/
theorem items_same {other : Graph} {set : EntrySet} {subject : Subject}
    {marks : Set (EntryId × ℤ)} (h : set.fragment.Ranks graph subject lead marks)
    (h' : set.fragment.Ranks other subject lead marks) (hsite : graph.site = other.site)
    (hname : graph.nameOf = other.nameOf) :
    List.Forall₂ Concrete.SamePlace (set.items graph) (set.items other) := by
  by_cases hhere : set.fragment.site = graph.site
  · obtain ⟨ranked, hranked, hrows⟩ := Graph.exists_ranked hhere h.order
      (fun mark hmark => Graph.has_of_hasPermission (h.viewable mark hmark)) h.rows
    obtain ⟨ranked', hranked', hrows'⟩ := Graph.exists_ranked (hhere.trans hsite) h'.order
      (fun mark hmark => Graph.has_of_hasPermission (h'.viewable mark hmark)) h'.rows
    cases hranked.unique hname hranked'
    have hback : List.Forall₂ (fun (r : EntryId × ℤ) selected => selected.1 = r.1 ∧
        Bindings.Stands other selected.2 set.fragment.entity lead r) ranked
        (other.selectRows set.fragment) := hrows'.flip
    refine List.rel_map (fun selected selected' hsame => ?_) (forall₂_comp hrows hback)
    obtain ⟨r, ⟨hid, hstands⟩, hid', hstands'⟩ := hsame
    refine ⟨?_, ?_, ?_⟩
    · rw [unannotated_item, unannotated_item, hid, hid']
    · rw [told?_item hstands h.told (.inl rfl), told?_item hstands' h'.told (.inl rfl)]
    · rw [told?_item hstands h.told (.inr rfl), told?_item hstands' h'.told (.inr rfl)]
  · have hnone : graph.selectRows set.fragment = [] := by
      rw [Graph.selectRows_eq, if_neg hhere]
    have hnone' : other.selectRows set.fragment = [] := by
      rw [Graph.selectRows_eq, if_neg (hsite ▸ hhere)]
    unfold items
    rw [hnone, hnone']
    exact .nil

end EntrySet

/-! ### Runs with the same outcome -/

/-- Neither of two runs finishes, or both end in the same state, in which no answers are prepared,
and with the same error or with results that correspond. -/
inductive SameOutcome {α β : Type} (r : α → β → Prop) :
    Option (Except Error α × EvalState) → Option (Except Error β × EvalState) → Prop where
  | exhausted : SameOutcome r none none
  | finished {o : Except Error α} {o' : Except Error β} {s : EvalState} : s.prepared = [] →
      Agree r o o' → SameOutcome r (some (o, s)) (some (o', s))

namespace SameOutcome

variable {α β γ δ : Type} {r : α → β → Prop} {q : γ → δ → Prop} {environment other : Environment}
  {s s' : EvalState}

theorem bind {x : EvalM α} {y : EvalM β} {f : α → EvalM γ} {g : β → EvalM δ}
    (h : SameOutcome r (x environment s) (y other s'))
    (hf : ∀ a b s, r a b → s.prepared = [] → SameOutcome q (f a environment s) (g b other s)) :
    SameOutcome q ((x >>= f) environment s) ((y >>= g) other s') := by
  cases hx : x environment s with
  | none =>
    rw [hx] at h
    generalize hy : y other s' = outcome at h
    cases h
    rw [EvalM.bind_of_none hx, EvalM.bind_of_none hy]
    exact .exhausted
  | some outcome =>
    rw [hx] at h
    generalize hy : y other s' = outcome' at h
    cases h with
    | finished hs hagree =>
      cases hagree with
      | ok hab =>
        rw [EvalM.bind_of_ok hx, EvalM.bind_of_ok hy]
        exact hf _ _ _ hab hs
      | error e =>
        rw [EvalM.bind_of_error hx, EvalM.bind_of_error hy]
        exact .finished hs (.error e)

theorem pure {a : α} {b : β} (h : r a b) (hs : s.prepared = []) :
    SameOutcome r ((Pure.pure a : EvalM α) environment s) ((Pure.pure b : EvalM β) other s) :=
  .finished hs (.ok h)

end SameOutcome

theorem Stage.Firm.sameOutcome {environment : Environment} {S : Stage environment} {α : Type}
    {x : EvalM α} {p : α → Prop} (hx : S.Firm x p) {s : EvalState} (hs : S.Orderly s)
    (facts : List FactRecord) : SameOutcome (fun a b => a = b ∧ p a) (x environment s)
      (x (environment.withFacts facts) s) := by
  rw [hx.same_facts facts hs]
  cases hrun : x environment s with
  | none => exact .exhausted
  | some outcome =>
    obtain ⟨o, s'⟩ := outcome
    obtain ⟨hs', ha⟩ := hx.yields s s' o hs hrun
    refine .finished (S.prepared hs'.occurs) ?_
    cases o with
    | ok a => exact .ok ⟨rfl, ha a rfl⟩
    | error e => exact .error e

theorem Store.sameOutcome_execute {environment : Environment} {facts : List FactRecord}
    {s : EvalState} (hs : s.prepared = []) (query : Query) :
    SameOutcome (fun rows rows' => rows = environment.graph.execute query ∧
        rows' = (environment.withFacts facts).graph.execute query)
      (Store.execute query environment s)
      (Store.execute query (environment.withFacts facts) s) := by
  cases houtage : environment.outage .execute with
  | some e =>
    have houtage' : (environment.withFacts facts).outage .execute = some e := houtage
    rw [Store.execute_run hs, Store.execute_run hs, houtage, houtage']
    exact .finished hs (.error _)
  | none =>
    have houtage' : (environment.withFacts facts).outage .execute = none := houtage
    rw [Store.execute_run hs, Store.execute_run hs, houtage, houtage']
    exact .finished hs (.ok ⟨rfl, rfl⟩)

/-! ### Collecting with facts in another order -/

section

variable {environment : Environment} {facts : List FactRecord} {v : Value}

theorem Evaluator.sameOutcome_collectFrom
    (hslice : ∀ levels offset count s, s.prepared = [] →
      SameOutcome (List.Forall₂ Concrete.SamePlace)
        ((ofDepth levels).slice v offset count environment s)
        ((ofDepth levels).slice v offset count (environment.withFacts facts) s))
    (levels chunkSize : Nat) {pulled pulled' : List Concrete}
    (hpulled : List.Forall₂ Concrete.SamePlace pulled pulled') {s : EvalState}
    (hs : s.prepared = []) :
    SameOutcome (List.Forall₂ Concrete.SamePlace)
      ((ofDepth levels).collectFrom v chunkSize pulled environment s)
      ((ofDepth levels).collectFrom v chunkSize pulled' (environment.withFacts facts) s) := by
  induction levels generalizing pulled pulled' s with
  | zero => exact .exhausted
  | succ levels ih =>
    show SameOutcome _ ((ofDepth levels).collectStep v chunkSize pulled environment s)
      ((ofDepth levels).collectStep v chunkSize pulled' (environment.withFacts facts) s)
    unfold collectStep
    rw [← hpulled.length_eq]
    refine SameOutcome.bind (hslice levels pulled.length chunkSize s hs)
      fun chunk chunk' s hchunk hs => ?_
    rw [← hchunk.length_eq]
    split
    · exact .pure (List.rel_append hpulled hchunk) hs
    · exact ih (List.rel_append hpulled hchunk) hs

theorem Evaluator.sameOutcome_collect_concrete (known : Concrete) (levels chunkSize : Nat)
    {s : EvalState} (hs : s.prepared = []) :
    SameOutcome (List.Forall₂ Concrete.SamePlace)
      ((ofDepth levels).collect (.concrete known) chunkSize environment s)
      ((ofDepth levels).collect (.concrete known) chunkSize (environment.withFacts facts) s) := by
  refine sameOutcome_collectFrom (fun levels offset count s hs => ?_) levels _ .nil hs
  cases levels with
  | zero => exact .exhausted
  | succ levels =>
    show SameOutcome _ ((ofDepth levels).sliceStep (.concrete known) offset count environment s)
      ((ofDepth levels).sliceStep (.concrete known) offset count (environment.withFacts facts) s)
    unfold sliceStep
    dsimp only
    cases known.slice? offset count with
    | none => exact .finished hs (.error _)
    | some items => exact .pure (List.forall₂_same.mpr fun item _ => .refl item) hs

variable {set : EntrySet} {subject : Subject} {lead : Option Scalar} {marks : Set (EntryId × ℤ)}
  (h : set.fragment.Ranks environment.graph subject lead marks)
  (h' : set.fragment.Ranks { environment.graph with facts } subject lead marks)

include h h'

theorem EntrySet.sameOutcome_slice (offset count : Nat) {s : EvalState} (hs : s.prepared = []) :
    SameOutcome (List.Forall₂ Concrete.SamePlace) (set.slice offset count environment s)
      (set.slice offset count (environment.withFacts facts) s) := by
  unfold slice
  by_cases hcount : count = 0
  · rw [if_pos hcount]
    exact .pure .nil hs
  · rw [if_neg hcount]
    refine SameOutcome.bind (Store.sameOutcome_execute hs _) fun rows rows' s hsame hs => ?_
    obtain ⟨rfl, rfl⟩ := hsame
    have htold : ∀ told ∈ set.fragment.annotations, told.1 ∉ Concrete.reservedKeys :=
      fun told htold => (h.told told htold).1
    have hitems := items_same h h' rfl rfl
    have hpage := List.forall₂_take count (List.forall₂_drop offset hitems)
    unfold items at hpage
    rw [← List.map_drop, ← List.map_take, ← List.map_drop, ← List.map_take] at hpage
    have hrun (environment : Environment) (selected : List (EntryId × Bindings)) :
        (selected.map (environment.graph.project set.fragment.annotations)).mapM
            (ofRow set.fragment.annotations) environment s =
          some (.ok (selected.map (item environment.graph set.fragment.annotations)), s) :=
      mapM_ofRow_run htold selected
    exact (congrArg₂ (SameOutcome _) (hrun environment _)
      (hrun (environment.withFacts facts) _)).mpr (.finished hs (.ok hpage))

theorem Evaluator.sameOutcome_collect_entrySet (levels chunkSize : Nat) {s : EvalState}
    (hs : s.prepared = []) :
    SameOutcome (List.Forall₂ Concrete.SamePlace)
      ((ofDepth levels).collect (.entrySet set) chunkSize environment s)
      ((ofDepth levels).collect (.entrySet set) chunkSize (environment.withFacts facts) s) := by
  refine sameOutcome_collectFrom (fun levels offset count s hs => ?_) levels _ .nil hs
  cases levels with
  | zero => exact .exhausted
  | succ levels => exact EntrySet.sameOutcome_slice h h' offset count hs

end

/-! ### Expressions for entries -/

namespace Evaluator

def listItems (evaluator : Evaluator) (context : Context) (e : Expr) (chunkSize : Nat) :
    EvalM (List Concrete) := do
  evaluator.collect (← evaluator.evaluate context e) chunkSize

def listEntries (evaluator : Evaluator) (context : Context) (e : Expr) (chunkSize : Nat) :
    EvalM (List Concrete) := do
  evaluator.collect (.entrySet (← evaluator.evaluateEntrySet context e)) chunkSize

variable {environment : Environment} {context : Context} {facts : List FactRecord} {e : Expr}

theorem sameOutcome_collect {v : Value}
    (hv : v.Shows context (Fragment.Means environment context facts) e)
    (levels chunkSize : Nat) {s : EvalState} (hs : s.prepared = []) :
    SameOutcome (List.Forall₂ Concrete.SamePlace)
      ((ofDepth levels).collect v chunkSize environment s)
      ((ofDepth levels).collect v chunkSize (environment.withFacts facts) s) := by
  cases hv with
  | call hset =>
    obtain ⟨lead, marks, h, h', -⟩ := hset.means
    exact sameOutcome_collect_entrySet h h' levels chunkSize hs
  | _ => exact sameOutcome_collect_concrete _ levels chunkSize hs

/-- A fixture whose records have different identifiers is accepted in any other order as well. All
items of an expression for entries are then the same entries in the same order, with the same
distances and ranks, or listing them fails with the same error. -/
theorem listEntries_of_reordered {fixture other : Fixture}
    (hgraph : fixture.toGraph = .ok environment.graph) (hdistinct : fixture.Distinct)
    (horder : fixture.Reordered other) (site : SiteId) (user : Option UserId)
    (entry : Option EntryId) (he : e.Formed Literal.IsReadable environment.registry)
    (h : e.ForEntries environment.graph site) :
    ∃ graph, other.toGraph = .ok graph ∧
      let root := Context.root environment.config site user entry {}
      ∀ levels chunkSize,
        SameOutcome (List.Forall₂ Concrete.SamePlace)
            ((ofDepth levels).listItems root.1 e chunkSize environment root.2)
            ((ofDepth levels).listItems root.1 e chunkSize (environment.withGraph graph) root.2) ∧
          SameOutcome (List.Forall₂ Concrete.SamePlace)
            ((ofDepth levels).listEntries root.1 e chunkSize environment root.2)
            ((ofDepth levels).listEntries root.1 e chunkSize (environment.withGraph graph)
              root.2) := by
  refine ⟨_, horder.toGraph hdistinct hgraph, fun levels chunkSize => ?_⟩
  let root := Context.root environment.config site user entry {}
  let means := Fragment.Means environment root.1 (other.facts.mapIdx Fixture.Fact.record)
  have hmeans : Fragment.Compositional environment root.1 means :=
    Fragment.compositional_means (Fixture.within_has hgraph) (horder.retold hgraph)
  have hroot : (Stage.faithful environment root.1 means).Orderly root.2 :=
    Stage.caching_root site user entry
  have hentries : e.ForEntries environment.graph root.1.site := h
  have hfirm := firm_evaluate hmeans levels e he (.forEntries hentries)
  constructor
  · refine SameOutcome.bind (hfirm.sameOutcome hroot _) fun v v' s hv hs => ?_
    obtain ⟨rfl, hshows⟩ := hv
    exact sameOutcome_collect hshows levels chunkSize hs
  · have hset := firm_evaluateEntrySet hmeans hfirm hentries
    refine SameOutcome.bind (hset.sameOutcome hroot _) fun set set' s hset hs => ?_
    obtain ⟨rfl, -, lead, marks, hranks, hagain, -⟩ := hset
    exact sameOutcome_collect_entrySet hranks hagain levels chunkSize hs

end Evaluator

/-! ### A link that is told twice -/

/-- An entry and its parent with links to others of one name. Both have a link of the same rank to
one of these, but with another note. -/
def Fixture.linked : Fixture where
  site := ⟨"s"⟩
  entries := [⟨⟨"a"⟩, "", "A", "", ⟨"t"⟩⟩, ⟨⟨"b"⟩, "", "B", "", ⟨"t"⟩⟩,
    ⟨⟨"c"⟩, "", "Same", "", ⟨"t"⟩⟩, ⟨⟨"d"⟩, "", "Same", "", ⟨"t"⟩⟩]
  properties := [⟨⟨"link"⟩, "", "Link", .relationship, false, none⟩,
    ⟨⟨"parent"⟩, "", "Parent", .isA, false, none⟩]
  facts := [{ entry := ⟨"a"⟩, property := ⟨"parent"⟩, target := some ⟨"b"⟩ },
    { entry := ⟨"a"⟩, property := ⟨"link"⟩, target := some ⟨"d"⟩, note := "first" },
    { entry := ⟨"a"⟩, property := ⟨"link"⟩, target := some ⟨"c"⟩, rank := 2 },
    { entry := ⟨"b"⟩, property := ⟨"link"⟩, target := some ⟨"c"⟩ },
    { entry := ⟨"a"⟩, property := ⟨"link"⟩, target := some ⟨"d"⟩, note := "last" }]

def Fixture.relinked : Fixture where
  site := linked.site
  entries := linked.entries.reverse
  properties := linked.properties.reverse
  facts := linked.facts.reverse

def Environment.linked : Environment where
  graph := {
    site := ⟨"s"⟩
    entries := Fixture.linked.entries.map fun entry => (entry.id, entry)
    properties := Fixture.linked.properties.map fun property => (property.id, property)
    facts := Fixture.linked.facts.mapIdx Fixture.Fact.record }

/-- What an entry and its ancestors link to. -/
def Expr.linked : Expr :=
  .call (.builtin .get) (some (.call (.builtin .andAncestors) (some .this) []))
    [("prop", .literal (.property ⟨"link"⟩))]

theorem Expr.formed_linked : Formed Literal.IsReadable {} linked := by
  have hand : Token.IsName "andAncestors" := ⟨'a', "ndAncestors".toList, rfl, rfl,
    List.all_eq_true.mp rfl, rfl⟩
  have hget : Token.IsName "get" := ⟨'g', "et".toList, rfl, rfl, List.all_eq_true.mp rfl, rfl⟩
  have hprop : Token.IsName "prop" := ⟨'p', "rop".toList, rfl, rfl, List.all_eq_true.mp rfl, rfl⟩
  have hthis : Formed Literal.IsReadable {} (.call (.builtin .andAncestors) (some .this) []) :=
    .call hand rfl rfl (by rintro _ ⟨⟩; exact .this) nofun nofun
  have hlink : Formed Literal.IsReadable {} (.literal (.property ⟨"link"⟩)) :=
    .literal ⟨by decide, List.all_eq_true.mp rfl⟩
  exact .call hget rfl rfl (by rintro _ ⟨⟩; exact hthis)
    (List.forall_mem_singleton.mpr hprop) (List.forall_mem_singleton.mpr hlink)

def EvalM.listed? {α : Type} (outcome : Option (Except Error α × EvalState)) : Option α :=
  outcome.bind (·.1.toOption)

theorem EvalM.exists_of_listed? {α : Type} {outcome : Option (Except Error α × EvalState)} {a : α}
    (h : listed? outcome = some a) : ∃ s, outcome = some (.ok a, s) := by
  obtain ⟨⟨o, s⟩, rfl, ho⟩ := Option.bind_eq_some_iff.mp h
  cases o with
  | ok a' =>
    cases ho
    exact ⟨s, rfl⟩
  | error e => cases ho

def Concrete.tells (name : String) (value item : Concrete) : Bool :=
  (item.told? name).any (same value)

open Evaluator in
/-- In both orders the targets are listed by identifier, as they have the same rank and the same
name. But the note is that of the first fact. -/
theorem Evaluator.listEntries_of_reordered_linked : ∃ graph items items' s,
    let root := Context.root Environment.linked.config ⟨"s"⟩ none (some ⟨"a"⟩) {}
    Fixture.relinked.toGraph = .ok graph ∧
      (ofDepth 6).listItems root.1 .linked 5 Environment.linked root.2 = some (.ok items, s) ∧
      (ofDepth 6).listItems root.1 .linked 5 (Environment.linked.withGraph graph) root.2 =
        some (.ok items', s) ∧
      List.Forall₂ Concrete.SamePlace items items' ∧
      Concrete.entryIds? items = some [⟨"c"⟩, ⟨"d"⟩] ∧
      items.map (Concrete.tells "note" (.string "first")) = [false, true] ∧
      items'.map (Concrete.tells "note" (.string "last")) = [false, true] := by
  have hgraph : Fixture.linked.toGraph = .ok Environment.linked.graph := rfl
  have hdistinct : Fixture.linked.Distinct := ⟨by decide, by decide, by decide⟩
  have horder : Fixture.linked.Reordered Fixture.relinked := ⟨rfl, .refl _,
    (List.reverse_perm _).symm, (List.reverse_perm _).symm, (List.reverse_perm _).symm, rfl⟩
  have hentries : Expr.linked.ForEntries Environment.linked.graph ⟨"s"⟩ :=
    .get (.traverse rfl .this) rfl (by rintro _ ⟨⟩; rfl)
  obtain ⟨graph, hother, hall⟩ := listEntries_of_reordered hgraph hdistinct horder ⟨"s"⟩ none
    (some ⟨"a"⟩) Expr.formed_linked hentries
  let root := Context.root Environment.linked.config ⟨"s"⟩ none (some ⟨"a"⟩) {}
  have hfirst : (EvalM.listed? ((ofDepth 6).listItems root.1 .linked 5 Environment.linked
      root.2)).any fun items => Concrete.entryIds? items = some [⟨"c"⟩, ⟨"d"⟩] ∧
        items.map (Concrete.tells "note" (.string "first")) = [false, true] := by
    decide +kernel
  have hlast : Fixture.relinked.toGraph.toOption.any fun graph =>
      (EvalM.listed? ((ofDepth 6).listItems root.1 .linked 5 (Environment.linked.withGraph graph)
        root.2)).any fun items =>
          items.map (Concrete.tells "note" (.string "last")) = [false, true] := by
    decide +kernel
  obtain ⟨items, hlisted, hitems⟩ := (Option.any_eq_true _ _).mp hfirst
  obtain ⟨hids, hnote⟩ := of_decide_eq_true hitems
  rw [hother] at hlast
  obtain ⟨_, ⟨⟩, hsecond⟩ := (Option.any_eq_true _ _).mp hlast
  obtain ⟨items', hlisted', hitems'⟩ := (Option.any_eq_true _ _).mp hsecond
  obtain ⟨s, hrun⟩ := EvalM.exists_of_listed? hlisted
  obtain ⟨s', hrun'⟩ := EvalM.exists_of_listed? hlisted'
  obtain ⟨hsame, -⟩ := hall 6 5
  rw [hrun, hrun'] at hsame
  cases hsame with
  | finished _ hagree =>
    cases hagree with
    | ok hplaces =>
      exact ⟨graph, items, items', s, hother, hrun, hrun', hplaces, hids, hnote,
        of_decide_eq_true hitems'⟩

end GraphExpr
