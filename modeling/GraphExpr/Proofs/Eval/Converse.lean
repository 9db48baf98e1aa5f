import GraphExpr.Proofs.Eval.EntryCalls
import GraphExpr.Proofs.Eval.StorageOrder
import GraphExpr.Proofs.Graph.Converse

/-! # Converse views

What one entry is to another one when links are followed in one direction, that is this one to the
first in the other direction: its ancestors have it among their descendants, at the same distance,
and the targets of its facts lead back to it, with the same rank.
-/

namespace GraphExpr

/-! ### Numbers that are told -/

/-- What is told under a name is the number that decides about the order, if that has 64 bits. -/
def Fragment.Numbers (f : Fragment) (name : String) : Prop :=
  (name = "distance" ∨ name = "rank") ∧ ∀ n : ℤ, (f.annotations.findSome? fun told =>
    if told.1 = name then told.2.reviver.revive? (Json.int n) else none) =
      if Word.Signed n then some (.integer n) else none

namespace Fragment

variable (f : Fragment) (visible : Var → Predicate)

theorem numbers_traversed (direction : Direction) (includeSelf : Bool) (limit : Nat) :
    (f.traversed visible direction includeSelf limit).Numbers "distance" := by
  constructor
  · exact .inl rfl
  · intro n
    simp [traversed, annotate, clearAnnotations, orderFirstBy, Dict.insert,
      Reviver.revive?_integer]

theorem tellFact_annotations (h : f.annotations = []) (fact : Var) :
    (f.tellFact fact).annotations = [("note", ⟨.factNote fact, .string⟩),
      ("rank", ⟨.factRank fact, .integer⟩), ("slot", ⟨.factSlot fact, .string⟩)] := by
  simp only [tellFact, annotate, h]
  rfl

theorem numbers_followed (property : PropertyRecord) :
    (f.followed visible property).Numbers "rank" := by
  constructor
  · exact .inr rfl
  · intro n
    have hfirst : compare "inheritedFrom" "note" = .lt := rfl
    simp only [followed, orderFirstBy, annotate, clearAnnotations, tellFact_annotations]
    simp only [Dict.insert, hfirst, List.findSome?_cons, List.findSome?_nil, String.reduceEq,
      if_false, if_true, Reviver.revive?_integer]
    cases if Word.Signed n then some (Concrete.integer n) else none <;> rfl

theorem numbers_reversed (property : PropertyRecord) :
    (f.reversed visible property).Numbers "rank" := by
  constructor
  · exact .inr rfl
  · intro n
    simp only [reversed, orderFirstBy, clearAnnotations, tellFact_annotations]
    simp only [List.findSome?_cons, List.findSome?_nil, String.reduceEq, if_false, if_true,
      Reviver.revive?_integer]
    cases if Word.Signed n then some (Concrete.integer n) else none <;> rfl

end Fragment

/-- An item of a set that ranks entries tells the number of its entry, the least that this is marked
with. -/
theorem EntrySet.exists_told_iff {graph : Graph} {subject : Subject} {set : EntrySet}
    {lead : Option Scalar} {marks : Set (EntryId × ℤ)}
    (h : set.fragment.Ranks graph subject lead marks) (hsite : subject.site = graph.site)
    {name : String} (hname : set.fragment.Numbers name) {id : EntryId} {n : ℤ} :
    (∃ item ∈ set.items graph, item.unannotated = .entry id ∧
        item.told? name = some (.integer n)) ↔
      Word.Signed n ∧ IsLeast {m | (id, m) ∈ marks} n := by
  obtain ⟨ranked, hranked, hrows⟩ := Graph.exists_ranked (h.site.trans hsite) h.order
    (fun mark hmark => Graph.has_of_hasPermission (h.viewable mark hmark)) h.rows
  have htold {selected : EntryId × Bindings} {r : EntryId × ℤ}
      (hstands : selected.2.Stands graph set.fragment.entity lead r) :
      (item graph set.fragment.annotations selected).told? name =
        if Word.Signed r.2 then some (.integer r.2) else none :=
    (told?_item hstands h.told hname.1).trans (hname.2 r.2)
  constructor
  · rintro ⟨_, hitem, hid, hnumber⟩
    obtain ⟨selected, hselected, rfl⟩ := List.mem_map.mp hitem
    obtain ⟨r, hr, hsame, hstands⟩ := exists_mem_right hrows hselected
    rw [unannotated_item, hsame] at hid
    cases hid
    rw [htold hstands] at hnumber
    obtain ⟨hsigned, hn⟩ := Option.ite_none_right_eq_some.mp hnumber
    cases hn
    exact ⟨hsigned, (hranked.least r).mp hr⟩
  · rintro ⟨hsigned, hleast⟩
    obtain ⟨selected, hselected, hsame, hstands⟩ :=
      exists_mem_left hrows ((hranked.least (id, n)).mpr hleast)
    refine ⟨_, List.mem_map_of_mem hselected, ?_, ?_⟩
    · rw [unannotated_item, hsame]
    · rw [htold hstands, if_pos hsigned]

/-! ### Items of expressions -/

/-- With enough levels the expression is evaluated to a value with these items, which can be
collected. -/
def Expr.Yields (environment : Environment) (root : Context × EvalState) (e : Expr)
    (items : List Concrete) : Prop :=
  ∃ v t, Converges environment (fun n => (Evaluator.ofDepth n).evaluate root.1 e) root.2 (.ok v) t ∧
    v.Collects environment items

/-- One of the items of the expression is the entry, with the number under the name. -/
def Expr.Tells (environment : Environment) (root : Context × EvalState) (e : Expr)
    (name : String) (id : EntryId) (n : ℤ) : Prop :=
  ∃ items, e.Yields environment root items ∧
    ∃ item ∈ items, item.unannotated = .entry id ∧ item.told? name = some (.integer n)

section

variable {environment : Environment} {root : Context × EvalState} {e : Expr} {t : EvalState}

theorem not_collects_error (error : ExprError) (items : List Concrete) :
    ¬ (Value.concrete (.error error)).Collects environment items := by
  rintro ⟨N, hN⟩
  obtain ⟨s, hrun⟩ := hN (N + 2) (Nat.le_add_right _ _) 1 {} rfl
  cases hrun

theorem not_tells_of_error {error : ExprError}
    (h : Converges environment (fun n => (Evaluator.ofDepth n).evaluate root.1 e) root.2
      (.ok (.concrete (.error error))) t) (name : String) (id : EntryId) (n : ℤ) :
    ¬ e.Tells environment root name id n := by
  rintro ⟨items, ⟨v, t', hrun, hcollects⟩, -⟩
  cases (h.unique hrun).1
  exact not_collects_error error items hcollects

end

/-! ### Calls that are converse -/

section

variable {environment : Environment} {root : Context × EvalState} {subject : Subject} {e e' : Expr}
  {f g : Fragment} {lead lead' : Option Scalar} {marks marks' : Set (EntryId × ℤ)} {name : String}

/-- What is told of an entry is the least number that it is marked with. -/
theorem Expr.Asks.tells_iff (hreach : environment.outage .execute = none)
    (h : e.Asks environment root f) (hf : f.Ranks environment.graph subject lead marks)
    (hsite : subject.site = environment.graph.site) (hname : f.Numbers name) {id : EntryId}
    {n : ℤ} :
    e.Tells environment root name id n ↔ 2 ≤ environment.config.evaluationDepth ∧
      Word.Signed n ∧ IsLeast {m | (id, m) ∈ marks} n := by
  cases h with
  | tooDeep hdepth hrun => exact iff_of_false (not_tells_of_error hrun name id n) (by omega)
  | @query set t hdepth hrun hset =>
    subst hset
    have hcollects := EntrySet.collects hreach fun told htold => (hf.told told htold).1
    rw [← EntrySet.exists_told_iff hf hsite hname]
    constructor
    · rintro ⟨items, ⟨v, t', hrun', hcollects'⟩, hitem⟩
      cases (hrun.unique hrun').1
      exact ⟨hdepth, hcollects'.unique hcollects ▸ hitem⟩
    · rintro ⟨-, hitem⟩
      exact ⟨_, ⟨_, t, hrun, hcollects⟩, hitem⟩

theorem Expr.Asks.yields (hreach : environment.outage .execute = none)
    (h : e.Asks environment root f) (hf : f.Ranks environment.graph subject lead marks)
    (hdepth : 2 ≤ environment.config.evaluationDepth) :
    ∃ items, e.Yields environment root items := by
  cases h with
  | tooDeep hshallow _ => omega
  | @query set t _ hrun hset =>
    subst hset
    exact ⟨_, _, t, hrun, EntrySet.collects hreach fun told htold => (hf.told told htold).1⟩

/-- The first call gives an entry with some number if and only if the second gives another entry
with it. Both calls have items where their arguments are not nested too deep. -/
structure Expr.Converse (environment : Environment) (root : Context × EvalState) (name : String)
    (e : Expr) (y : EntryId) (e' : Expr) (x : EntryId) : Prop where
  tells : ∀ n, e.Tells environment root name y n ↔ e'.Tells environment root name x n
  yields : 2 ≤ environment.config.evaluationDepth →
    (∃ items, e.Yields environment root items) ∧ ∃ items, e'.Yields environment root items

theorem Expr.Asks.converse (hreach : environment.outage .execute = none)
    (h : e.Asks environment root f) (hf : f.Ranks environment.graph subject lead marks)
    (hf' : f.Numbers name) (h' : e'.Asks environment root g)
    (hg : g.Ranks environment.graph subject lead' marks') (hg' : g.Numbers name)
    (hsite : subject.site = environment.graph.site) {x y : EntryId}
    (hmarks : ∀ n, (y, n) ∈ marks ↔ (x, n) ∈ marks') :
    e.Converse environment root name y e' x where
  tells n := by
    rw [h.tells_iff hreach hf hsite hf', h'.tells_iff hreach hg hsite hg']
    simp only [hmarks]
  yields hdepth := ⟨h.yields hreach hf hdepth, h'.yields hreach hg hdepth⟩

end

namespace Evaluator

/-- For entries that the subject may view, the ancestors of the first tell the second at a distance
if and only if the descendants of the second tell the first at this distance. For a property of
entries that is not inherited and may be viewed, the targets of the first tell the second with a
rank if and only if the entries that lead to the second tell the first with this rank. -/
theorem converse_views {environment : Environment} {fixture : Fixture}
    (hgraph : fixture.toGraph = .ok environment.graph)
    (hreach : ∀ service, environment.outage service = none)
    (hdenied : environment.denied .viewProperty = false) {site : SiteId} {user : Option UserId}
    {x y : EntryId} (hx : x ∈ environment.graph.viewable ⟨site, user⟩)
    (hy : y ∈ environment.graph.viewable ⟨site, user⟩) (entry : Option EntryId) :
    let root := Context.root environment.config site user entry {}
    Expr.Converse environment root "distance" (.ofEntry .ancestors x []) y
        (.ofEntry .descendants y []) x ∧
      ∀ (value : Literal) (name : String) (property : PropertyRecord), value.NamesProperty name →
        environment.graph.property? site name = some property →
        environment.graph.hasPermission ⟨site, user⟩ .viewProperty (.property property.id) = true →
        property.kind.isRelationship = true → property.inheritable = false →
        Expr.Converse environment root "rank" (.ofEntry .get x [("prop", .literal value)]) y
          (.ofEntry .reverse y [("prop", .literal value)]) x := by
  have hg : environment.graph.Within environment.graph.Has := Fixture.within_has hgraph
  have hsite : site = environment.graph.site := (Graph.hasPermission_viewEntry.mp hx).1
  have hone {z : EntryId} (hz : z ∈ environment.graph.viewable ⟨site, user⟩) :
      Prod.fst '' unranked ({id | id ∈ [z]} ∩ environment.graph.viewable ⟨site, user⟩) = {z} := by
    rw [image_unranked]
    ext id
    constructor
    · rintro ⟨hid, -⟩
      exact List.mem_singleton.mp hid
    · rintro rfl
      exact ⟨List.mem_singleton.mpr rfl, hz⟩
  have hranks (z : EntryId) : (Fragment.ofIds
      (environment.graph.predicateFor ⟨site, user⟩ .viewEntry) site [z]).Ranks environment.graph
        ⟨site, user⟩ none
          (unranked ({id | id ∈ [z]} ∩ environment.graph.viewable ⟨site, user⟩)) :=
    Fragment.ranks_ofIds hg [z]
  constructor
  · refine (asks_traversal hreach x rfl).converse (hreach _) ((hranks x).traversed hg _ _ _)
      (Fragment.numbers_traversed _ _ _ _ _) (asks_traversal hreach y rfl)
        ((hranks y).traversed hg _ _ _) (Fragment.numbers_traversed _ _ _ _ _) hsite fun n => ?_
    rw [hone hx, hone hy]
    exact and_congr Graph.mem_distances_converse (iff_of_true hy hx)
  · intro value name property hname hfound hallowed hkind hown
    refine (asks_get hreach x hdenied hname hfound hallowed hkind).converse (hreach _)
      ((hranks x).followed hg property) (Fragment.numbers_followed _ _ _)
        (asks_reverse hreach y hdenied hname hfound hallowed hkind)
          ((hranks y).reversed hg property) (Fragment.numbers_reversed _ _ _) hsite fun n => ?_
    rw [hone hx, hone hy]
    exact and_congr (Graph.mem_targetRanks_converse hown) (iff_of_true hy hx)

end Evaluator

/-! ### Converse views in a circle -/

theorem Expr.tells_of_runs {environment : Environment} {root : Context × EvalState} {e : Expr}
    {name : String} {id : EntryId} {number : ℤ} {set : EntrySet} {t : EvalState} {levels : Nat}
    {names : List String} {rest : List (Concrete × Option Concrete)}
    (hreach : environment.outage .execute = none)
    (hrun : ∀ n, (Evaluator.ofDepth (n + levels)).evaluate root.1 e environment root.2 =
      some (.ok (.entrySet set), t))
    (hkeys : set.fragment.annotations.map Prod.fst = names)
    (hnames : ∀ name ∈ names, name ∉ Concrete.reservedKeys)
    (hitems : (set.items environment.graph).map
      (fun item => (item.unannotated, item.told? name)) =
        (.entry id, some (.integer number)) :: rest) :
    e.Tells environment root name id number := by
  have hcollects := EntrySet.collects hreach
    fun told htold => hnames told.1 (hkeys ▸ List.mem_map_of_mem htold)
  obtain ⟨item, hitem, heq⟩ := List.mem_map.mp (hitems ▸ List.mem_cons_self ..)
  have hruns : Converges environment (fun n => (Evaluator.ofDepth n).evaluate root.1 e) root.2
      (.ok (.entrySet set)) t := ⟨levels, fun n hn => Nat.sub_add_cancel hn ▸ hrun (n - levels)⟩
  exact ⟨_, ⟨_, t, hruns, hcollects⟩, item, hitem, Prod.ext_iff.mp heq⟩

open Evaluator in
/-- In the circle an entry has the next one among its ancestors and among the targets of the
property, so it is a descendant of this one and leads to it by the property. -/
theorem Evaluator.converse_views_circle :
    let root := Context.root Environment.circle.config ⟨"s"⟩ none none {}
    let parent : Expr := .literal (.string "parent")
    Expr.Tells Environment.circle root (.ofEntry .ancestors ⟨"a"⟩ []) "distance" ⟨"b"⟩ 1 ∧
      Expr.Tells Environment.circle root (.ofEntry .descendants ⟨"b"⟩ []) "distance" ⟨"a"⟩ 1 ∧
      Expr.Tells Environment.circle root (.ofEntry .get ⟨"a"⟩ [("prop", parent)]) "rank" ⟨"b"⟩ 1 ∧
      Expr.Tells Environment.circle root (.ofEntry .reverse ⟨"b"⟩ [("prop", parent)]) "rank"
        ⟨"a"⟩ 1 := by
  have hgraph : Fixture.circle.toGraph = .ok Environment.circle.graph := rfl
  have hreach (service : Service) : Environment.circle.outage service = none := rfl
  have ha : ⟨"a"⟩ ∈ Environment.circle.graph.viewable ⟨⟨"s"⟩, none⟩ := rfl
  have hb : ⟨"b"⟩ ∈ Environment.circle.graph.viewable ⟨⟨"s"⟩, none⟩ := rfl
  obtain ⟨hdistance, hranks⟩ := converse_views hgraph hreach rfl ha hb none
  have hrank := hranks _ _ _ (.key "parent") rfl rfl rfl rfl
  obtain ⟨set, t, hrun, hkeys, rest, hitems⟩ : ∃ set t,
      let root := Context.root Environment.circle.config ⟨"s"⟩ none none {}
      (∀ n, (ofDepth (n + 6)).evaluate root.1 (.ofEntry .ancestors ⟨"a"⟩ []) Environment.circle
          root.2 = some (.ok (.entrySet set), t)) ∧
        set.fragment.annotations.map Prod.fst = ["distance"] ∧
        ∃ rest, (set.items Environment.circle.graph).map
          (fun item => (item.unannotated, item.told? "distance")) =
            (.entry ⟨"b"⟩, some (.integer 1)) :: rest := ⟨_, _, fun _ => rfl, rfl, _, rfl⟩
  have hancestor := Expr.tells_of_runs (hreach _) hrun hkeys (by decide) hitems
  obtain ⟨set, t, hrun, hkeys, hitems⟩ : ∃ set t,
      let root := Context.root Environment.circle.config ⟨"s"⟩ none none {}
      (∀ n, (ofDepth (n + 6)).evaluate root.1
        (.ofEntry .get ⟨"a"⟩ [("prop", .literal (.string "parent"))]) Environment.circle root.2 =
          some (.ok (.entrySet set), t)) ∧
        set.fragment.annotations.map Prod.fst = ["inheritedFrom", "note", "rank", "slot"] ∧
        (set.items Environment.circle.graph).map
          (fun item => (item.unannotated, item.told? "rank")) =
            [(.entry ⟨"b"⟩, some (.integer 1))] := ⟨_, _, fun _ => rfl, rfl, rfl⟩
  have htarget := Expr.tells_of_runs (hreach _) hrun hkeys (by decide) hitems
  exact ⟨hancestor, (hdistance.tells 1).mp hancestor, htarget, (hrank.tells 1).mp htarget⟩

end GraphExpr
