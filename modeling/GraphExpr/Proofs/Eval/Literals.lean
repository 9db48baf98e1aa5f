import GraphExpr.Proofs.Eval.Caching
import GraphExpr.Proofs.Eval.Limits
import GraphExpr.Proofs.Eval.Node
import GraphExpr.Proofs.Eval.ProperRequests
import GraphExpr.Proofs.Value.Denoted

/-! # The values of texts of values

An expression that is made of constants has the same value wherever it is evaluated, as long as its
parts are not nested deeper than evaluations may be.
-/

namespace GraphExpr

/-- In the state expressions made of constants can be evaluated in a scope up to a height: nothing
but values of such expressions is cached, and only higher ones are in progress. -/
structure EvalState.Admits (environment : Environment) (c : Context) (height : Nat)
    (s : EvalState) : Prop where
  cached : ∀ key v, s.cached? c.cache key = some v → ∃ e a, Registry.Reads {} e ∧
    c.cacheKey? e = some key ∧ e.constant? = some a ∧ v = .concrete a
  depth : s.depth + height ≤ environment.config.evaluationDepth
  inProgress : ∀ key ∈ s.inProgress, ∃ e, Registry.Reads {} e ∧
    c.cacheKey? e = some key ∧ height < e.height

/-- From every state that admits expressions up to a height the computations run, with enough
levels, to the same result, and no evaluation is left in progress. -/
def Succeeds {α : Type} (environment : Environment) (c : Context) (height : Nat)
    (x : Nat → EvalM α) (a : α) : Prop :=
  ∀ s : EvalState, s.Admits environment c height →
    ∃ s' : EvalState, Converges environment x s (.ok a) s' ∧ s'.Admits environment c height ∧
      s'.depth = s.depth ∧ s'.inProgress = s.inProgress

variable {environment : Environment} {c : Context} {height height' : Nat} {s : EvalState}
  {α β : Type} {a : α} {b : β}

namespace EvalState.Admits

theorem mono (h : s.Admits environment c height) (hle : height' ≤ height) :
    s.Admits environment c height' where
  cached := h.cached
  depth := (Nat.add_le_add_left hle _).trans h.depth
  inProgress key hkey := by
    obtain ⟨e, he, hcache, hheight⟩ := h.inProgress key hkey
    exact ⟨e, he, hcache, hle.trans_lt hheight⟩

section

variable {e : Expr} (he : Registry.Reads {} e) {key : String} (hkey : c.cacheKey? e = some key)
  {value : Concrete} (hvalue : e.constant? = some value)

include he hkey

/-- What is in progress is higher than an expression that is admitted, so it is another one. -/
theorem not_mem_inProgress (h : s.Admits environment c height) (hheight : e.height ≤ height) :
    key ∉ s.inProgress := by
  intro hmem
  obtain ⟨e', he', hkey', hheight'⟩ := h.inProgress key hmem
  obtain rfl := Scope.eq_of_cacheKey? he' he hkey' hkey
  omega

theorem enter (h : s.Admits environment c (height + 1)) (hheight : e.height = height + 1) :
    EvalState.Admits environment c height
      { s with depth := s.depth + 1, inProgress := key :: s.inProgress } := by
  have hroom := h.depth
  refine ⟨h.cached, by simp only; omega, fun key' hkey' => ?_⟩
  rcases List.mem_cons.mp hkey' with rfl | hold
  · exact ⟨e, he, hkey, by omega⟩
  · obtain ⟨e', he', hcache', hheight'⟩ := h.inProgress key' hold
    exact ⟨e', he', hcache', by omega⟩

include hvalue

theorem eq_of_cached (h : s.Admits environment c height) {v : Value}
    (hcached : s.cached? c.cache key = some v) : v = .concrete value := by
  obtain ⟨e', a, he', hkey', hconstant, rfl⟩ := h.cached key v hcached
  obtain rfl := Scope.eq_of_cacheKey? he' he hkey' hkey
  cases hconstant.symm.trans hvalue
  rfl

theorem finish (h : s.Admits environment c height') {t : EvalState}
    (ht : t.Admits environment c height) (hdepth : t.depth = s.depth + 1)
    (hprogress : t.inProgress = key :: s.inProgress) :
    (t.finish c.cache (some key) (.ok (.concrete value))).Admits environment c height' ∧
      (t.finish c.cache (some key) (.ok (.concrete value))).depth = s.depth ∧
      (t.finish c.cache (some key) (.ok (.concrete value))).inProgress = s.inProgress := by
  have hback : (t.finish c.cache (some key) (.ok (.concrete value))).depth = s.depth ∧
      (t.finish c.cache (some key) (.ok (.concrete value))).inProgress = s.inProgress := by
    simp [hdepth, hprogress]
  refine ⟨⟨fun key' v hv => ?_, hback.1 ▸ h.depth, hback.2 ▸ h.inProgress⟩, hback⟩
  rcases EvalState.cached?_finish hv with ⟨-, hsame, hok⟩ | hold
  · cases hsame
    cases hok
    exact ⟨e, value, he, hkey, hvalue, rfl⟩
  · exact ht.cached key' v hold

end

end EvalState.Admits

namespace Succeeds

theorem of_run {x : Nat → EvalM α} (hx : ∀ n s, x n environment s = some (.ok a, s)) :
    Succeeds environment c height x a :=
  fun s hs => ⟨s, ⟨0, fun n _ => hx n s⟩, hs, rfl, rfl⟩

theorem bind {x : Nat → EvalM α} {f : Nat → α → EvalM β}
    (hx : Succeeds environment c height x a)
    (hf : Succeeds environment c height (fun n => f n a) b) :
    Succeeds environment c height (fun n => x n >>= f n) b := by
  intro s hs
  obtain ⟨t, hrun, ht, hdepth, hprogress⟩ := hx s hs
  obtain ⟨s', hrest, hs', hdepth', hprogress'⟩ := hf t ht
  exact ⟨s', hrun.bind hrest, hs', hdepth'.trans hdepth, hprogress'.trans hprogress⟩

theorem mono {x : Nat → EvalM α} (h : Succeeds environment c height' x a)
    (hle : height' ≤ height) : Succeeds environment c height x a := by
  intro s hs
  obtain ⟨s', hrun, hs', hdepth, hprogress⟩ := h s (hs.mono hle)
  exact ⟨s', hrun, ⟨hs'.cached, hdepth ▸ hs.depth, hprogress ▸ hs.inProgress⟩, hdepth, hprogress⟩

variable {E : Nat → Evaluator} (hE : Evaluator.Climbs E) (hc : c.bindings = [])

include hE hc

/-- The evaluation of an expression made of constants is that of its node, one evaluation deeper. -/
theorem evaluate {e : Expr} (he : Registry.Reads {} e) {value : Concrete}
    (hvalue : e.constant? = some value) (hheight : e.height = height + 1)
    (hnode : Succeeds environment c height (fun n => (E n).evaluateNode c e) (.concrete value)) :
    Succeeds environment c (height + 1) (fun n => (E n).evaluate c e) (.concrete value) := by
  intro s hs
  obtain ⟨key, hkey⟩ : ∃ key, c.cacheKey? e = some key := by
    unfold Scope.cacheKey?
    rw [hc]
    exact ⟨_, rfl⟩
  cases hcached : s.cached? c.cache key with
  | some v =>
    obtain rfl := hs.eq_of_cached he hkey hvalue hcached
    exact ⟨s, .cached hE hkey hcached, hs, rfl, rfl⟩
  | none =>
    have hroom := hs.depth
    obtain ⟨t, hrun, ht, hdepth, hprogress⟩ := hnode _ (hs.enter he hkey hheight)
    have hfresh : Converges environment (fun n => (E n).evaluate c e) s (.ok (.concrete value))
        (t.finish c.cache (c.cacheKey? e) (.ok (.concrete value))) := by
      refine Converges.fresh (o := .ok (.concrete value)) hE ?_ (by omega) ?_ ?_
      · rw [hkey]
        exact hcached
      · rw [hkey]
        rintro _ ⟨⟩
        exact hs.not_mem_inProgress he hkey hheight.le
      · rw [hkey]
        exact hrun
    rw [hkey] at hfresh
    exact ⟨_, hfresh, hs.finish he hkey hvalue ht hdepth hprogress⟩

end Succeeds

/-! ### Nodes -/

section

variable {E : Nat → Evaluator} {e : Expr} {value : Concrete}

theorem Succeeds.evaluateSound (hsound : value.type ≠ .error)
    (h : Succeeds environment c height (fun n => (E n).evaluate c e) (.concrete value)) :
    Succeeds environment c height (fun n => (E n).evaluateSound c e) (.concrete value) := by
  refine h.bind (.of_run fun n s => ?_)
  cases value with
  | error error => exact absurd rfl hsound
  | _ => rfl

theorem Succeeds.evaluateForced (hsound : value.type ≠ .error)
    (h : Succeeds environment c height (fun n => (E n).evaluate c e) (.concrete value)) :
    Succeeds environment c height (fun n => (E n).evaluateForced c e) value :=
  (h.evaluateSound hsound).bind (.of_run fun _ _ => rfl)

theorem succeeds_forceAll {items : List Expr} {values : List Concrete}
    (hvalues : Expr.constants? items = some values)
    (h : ∀ e ∈ items, ∀ value, e.constant? = some value →
      Succeeds environment c height (fun n => (E n).evaluate c e) (.concrete value)) :
    Succeeds environment c height (fun n => (E n).forceAll c items) values := by
  induction items generalizing values with
  | nil =>
    cases hvalues
    exact .of_run fun _ _ => rfl
  | cons item items ih =>
    obtain ⟨hitem, hitems⟩ := List.forall_mem_cons.mp h
    simp only [Expr.constants?, Option.bind_eq_bind, Option.bind_eq_some_iff, Option.pure_def,
      Option.some.injEq] at hvalues
    obtain ⟨value, hvalue, rest, hrest, rfl⟩ := hvalues
    refine (hitem value hvalue).bind ?_
    refine Succeeds.bind (a := value) (.of_run fun _ _ => rfl) ?_
    exact (ih hrest hitems).bind (.of_run fun _ _ => rfl)

theorem succeeds_annotationsOf {named : List (String × Expr)}
    {notes : List (String × Concrete)} (hnotes : Expr.namedConstants? named = some notes)
    (h : ∀ a ∈ named, ∀ value, a.2.constant? = some value →
      Succeeds environment c height (fun n => (E n).evaluate c a.2) (.concrete value))
    (before : Dict String Concrete) :
    Succeeds environment c height (fun n => (E n).annotationsOf c named before)
      (Dict.merge before notes) := by
  induction named generalizing notes before with
  | nil =>
    cases hnotes
    exact .of_run fun _ _ => rfl
  | cons first named ih =>
    obtain ⟨hfirst, hrest⟩ := List.forall_mem_cons.mp h
    obtain ⟨key, e⟩ := first
    simp only [Expr.namedConstants?, Option.bind_eq_bind, Option.bind_eq_some_iff,
      Option.pure_def, Option.some.injEq] at hnotes
    obtain ⟨value, hvalue, rest, hrest', rfl⟩ := hnotes
    refine ((hfirst value hvalue).evaluateForced (Expr.constant?_sound hvalue).1).bind ?_
    exact ih hrest' hrest (before.insert key value)

theorem succeeds_annotate {x : Expr} {named : List (String × Expr)} {result : Concrete}
    {notes : List (String × Concrete)} (hnotes : Expr.namedConstants? named = some notes)
    (hvalue : x.constant? = some value)
    (hresult : Expr.constantCall? .annotate value (Dict.ofList notes) = some result)
    (hx : Succeeds environment c height (fun n => (E n).evaluate c x) (.concrete value))
    (hnamed : ∀ a ∈ named, ∀ value, a.2.constant? = some value →
      Succeeds environment c height (fun n => (E n).evaluate c a.2) (.concrete value)) :
    Succeeds environment c height
      (fun n => (E n).annotate ⟨.builtin .annotate, some x, named⟩ c) (.concrete result) := by
  refine (succeeds_annotationsOf hnotes hnamed []).bind ?_
  change Expr.constantCall? .annotate value (Dict.merge [] notes) = _ at hresult
  cases hmerged : Dict.merge [] notes with
  | nil =>
    rw [hmerged] at hresult
    cases hresult
  | cons first rest =>
    rw [hmerged] at hresult
    have hannotated : value.annotateEach (first :: rest) = .ok result := eq_ok_of_toOption hresult
    refine Succeeds.bind (a := x) (.of_run fun _ _ => rfl) ?_
    obtain ⟨hsound, hpage⟩ := Expr.constant?_sound hvalue
    refine (hx.evaluateSound hsound).bind (.of_run fun n s => ?_)
    cases value with
    | list items =>
      obtain ⟨results, hall, rfl⟩ := map_eq_ok hannotated
      dsimp only
      rw [hall]
      rfl
    | page page => exact absurd rfl hpage
    | _ =>
      simp only [Concrete.annotateEach] at hannotated
      simp only [hannotated]
      rfl

theorem succeeds_markdown {x : Expr} {text : String}
    (hx : Succeeds environment c height (fun n => (E n).evaluate c x) (.concrete (.string text))) :
    Succeeds environment c height
      (fun n => (E n).markdown ⟨.builtin .markdown, some x, []⟩ c)
      (.concrete (.markdown text)) := by
  refine Succeeds.bind (a := x) (.of_run fun _ _ => rfl) ?_
  exact (hx.evaluateSound (by simp [Concrete.type])).bind (.of_run fun n s => rfl)

theorem succeeds_date {x : Expr} {text : String} (hread : Concrete.readDate text = .ok value)
    (hx : Succeeds environment c height (fun n => (E n).evaluate c x) (.concrete (.string text))) :
    Succeeds environment c height
      (fun n => (E n).date ⟨.builtin .date, some x, []⟩ c) (.concrete value) := by
  refine Succeeds.bind (a := x) (.of_run fun _ _ => rfl) ?_
  refine Succeeds.bind (a := .concrete (.string text)) ?_ (.of_run fun n s => ?_)
  · exact (hx.evaluateSound (by simp [Concrete.type])).bind (.of_run fun n s => rfl)
  · dsimp only
    rw [hread]
    rfl

theorem succeeds_callBuiltin {builtin : Builtin} {x : Expr} {named : List (String × Expr)}
    {result : Concrete} {notes : List (String × Concrete)}
    (hnotes : Expr.namedConstants? named = some notes) (hvalue : x.constant? = some value)
    (hresult : Expr.constantCall? builtin value (Dict.ofList notes) = some result)
    (hx : Succeeds environment c height (fun n => (E n).evaluate c x) (.concrete value))
    (hnamed : ∀ a ∈ named, ∀ value, a.2.constant? = some value →
      Succeeds environment c height (fun n => (E n).evaluate c a.2) (.concrete value)) :
    Succeeds environment c height
      (fun n => (E n).callBuiltin builtin ⟨.builtin builtin, some x, named⟩ c)
      (.concrete result) := by
  have hnone (h : Dict.ofList notes = []) : named = [] := by
    obtain rfl := Dict.eq_nil_of_ofList_eq_nil h
    cases named with
    | nil => rfl
    | cons first rest =>
      simp [Expr.namedConstants?, Option.bind_eq_some_iff] at hnotes
  have hcall := hresult
  unfold Expr.constantCall? at hresult
  split at hresult
  next hempty =>
    cases hresult
    obtain rfl := hnone hempty
    exact succeeds_markdown hx
  next hempty =>
    obtain rfl := hnone hempty
    exact succeeds_date (eq_ok_of_toOption hresult) hx
  next => exact succeeds_annotate hnotes hvalue hcall hx hnamed
  next => cases hresult

end

/-- Expressions made of constants are evaluated to their values. -/
theorem succeeds_constant {E : Nat → Evaluator} (hE : Evaluator.Climbs E) (hc : c.bindings = [])
    (e : Expr) : Registry.Reads {} e → ∀ value, e.constant? = some value →
      Succeeds environment c e.height (fun n => (E n).evaluate c e) (.concrete value) := by
  -- Each part is lower than the whole, so that the states inside of it admit the part.
  induction e using Expr.nestedInduction with
  | literal l =>
    intro he value hvalue
    refine .evaluate hE hc he hvalue rfl (.of_run fun n s => ?_)
    cases hvalue
    rfl
  | list items ih =>
    intro he value hvalue
    obtain ⟨values, hvalues, rfl⟩ := Option.map_eq_some_iff.mp hvalue
    have hread : ∀ e ∈ items, Registry.Reads {} e := by
      obtain ⟨⟩ | ⟨hread⟩ := he
      exact hread
    refine .evaluate hE hc he hvalue rfl ?_
    exact (succeeds_forceAll hvalues fun e hmem v hv =>
      (ih e hmem (hread e hmem) v hv).mono (Expr.height_le_heightItems hmem)).bind
        (.of_run fun _ _ => rfl)
  | call f positional named ihp ihn =>
    intro he value hvalue
    match f, positional with
    | .plugin plugin, _ => simp [Expr.constant?] at hvalue
    | .builtin builtin, none => simp [Expr.constant?] at hvalue
    | .builtin builtin, some x =>
      have hcall := Call.proper_of_reads he
      obtain ⟨argument, hargument, notes, hnotes, hresult⟩ :
          ∃ argument, x.constant? = some argument ∧
            ∃ notes, Expr.namedConstants? named = some notes ∧
              Expr.constantCall? builtin argument (Dict.ofList notes) = some value := by
        simpa only [Expr.constant?, Option.bind_eq_bind, Option.bind_eq_some_iff] using hvalue
      refine .evaluate hE hc he hvalue rfl (succeeds_callBuiltin hnotes hargument hresult ?_ ?_)
      · exact (ihp x rfl (hcall.positional x rfl) argument hargument).mono (le_max_left _ _)
      · exact fun a ha v hv => (ihn a ha (hcall.named a ha).2 v hv).mono
          ((Expr.height_le_heightNamed ha).trans (le_max_right _ _))
  | this => intro _ _ hvalue; cases hvalue
  | var name => intro _ _ hvalue; cases hvalue
  | lambda parameter body ih => intro _ _ hvalue; cases hvalue
  | access object name ih => intro _ _ hvalue; cases hvalue

/-! ### Texts of values -/

/-- The expression has the value in every new scope while no evaluation is in progress, if
evaluations may be nested as deep as its parts are. -/
def Expr.HasValue (e : Expr) (value : Concrete) : Prop :=
  ∀ (environment : Environment) (site : SiteId) (user : Option UserId) (entry : Option EntryId)
    (state : EvalState), state.depth = 0 → state.inProgress = [] →
    e.height ≤ environment.config.evaluationDepth →
    let root := Context.root environment.config site user entry state
    ∃ s, Converges environment (fun n => (Evaluator.ofDepth n).answer root.1 e) root.2
      (.ok value) s

theorem Expr.hasValue_of_constant? {e : Expr} (he : Registry.Reads {} e) {value : Concrete}
    (hvalue : e.constant? = some value) : e.HasValue value := by
  intro environment site user entry state hdepth hidle hheight root
  have hadmits : root.2.Admits environment root.1 e.height := by
    refine ⟨fun key v hv => ?_, ?_, fun key hkey => ?_⟩
    · simp [root, Context.root, EvalState.cached?, EvalState.withCache, Dict.find?] at hv
    · change state.depth + e.height ≤ _
      omega
    · change key ∈ state.inProgress at hkey
      simp [hidle] at hkey
  obtain ⟨s, hrun, -⟩ := succeeds_constant Evaluator.climbs_ofDepth rfl e he value hvalue _ hadmits
  exact ⟨s, hrun.bind ⟨0, fun _ _ => rfl⟩⟩

theorem Concrete.eq_literalText {v : Concrete} {text : String} (h : v.literalText? = some text) :
    text = v.literalText := by
  unfold literalText? at h
  split at h <;> cases h
  rfl

/-- The text of a value that evaluation has made is read as an expression that has one value in all
new scopes. It is the value that was written, unless that has a page, a range, a drawing or an error
inside of it, or a list with annotations: only what is worded is not lost. -/
theorem literalText?_denotes {environment : Environment} (hnamed : environment.registry.Named)
    {request : Request} (hrequest : Request.Reached environment Evaluator.ofDepth .proper request)
    {c : Context} (hscope : c ∈ request.scopes) {source : String} {e : Expr}
    (he : Expr.parse environment.registry source = .ok e) {levels : Nat} {v : Concrete}
    {s : EvalState}
    (hrun : (Evaluator.ofDepth levels).answer c e environment request.state = some (.ok v, s))
    {text : String} (htext : v.literalText? = some text)
    (hwritable : v.Throughout Concrete.writtenParts fun x => x.constant.IsWritable) :
    ∃ t w, Expr.parse {} text = .ok t ∧ t.HasValue w ∧
      (v.same w = true ↔ v.Throughout Concrete.writtenParts Concrete.IsWorded) := by
  have hproper := Request.Proper.of_reached hnamed hrequest
  have hevaluator := Evaluator.proper_ofDepth hnamed levels
  have hmade := (hevaluator.evaluate (hproper.scopes c hscope)
    (Expr.readable_of_parse hnamed he)).bind fun u hu => hevaluator.force hu
  have hv : v.Proper := (hmade _ _ _ hproper.state hrun).2 v rfl
  have hregular : v.Throughout Concrete.writtenParts Concrete.IsRegular :=
    hv.mono (fun _ => id) Concrete.writtenParts_subset
  obtain rfl := Concrete.eq_literalText htext
  have hparse := (hregular.and hwritable).written.parse
  have hreads := Expr.readable_of_parse Registry.named_builtin hparse
  exact ⟨v.tree, v.denoted, hparse, Expr.hasValue_of_constant? hreads hregular.constant?_tree,
    hregular.same_denoted_iff⟩

def vacant : Environment := { graph := { site := ⟨"s"⟩ } }

def vacantScope : Context := ⟨⟨"s"⟩, none, none, 10, [], 0⟩

/-- The tree of `[markdown("a").annotate(n=7)]`. -/
def noted : Expr :=
  .list [.call (.builtin .annotate)
    (some (.call (.builtin .markdown) (some (.literal (.string "a"))) []))
    [("n", .literal (.integer 7))]]

def notedValue : Concrete :=
  .list [.annotated (.markdown "a") [("n", .integer 7)]]

/-- A list with an annotated text in Markdown is found again. -/
theorem literalText?_denotes_noted :
    let text := "[markdown(\"a\").annotate(n=7)]"
    Expr.parse {} text = .ok noted ∧
    (∃ s, (Evaluator.ofDepth 9).answer vacantScope noted vacant ({} : EvalState).withCache =
      some (.ok notedValue, s)) ∧
    notedValue.literalText? = some text ∧
    ∃ t w, Expr.parse {} text = .ok t ∧ t.HasValue w ∧ notedValue.same w = true := by
  obtain ⟨s, hrun⟩ : ∃ s, (Evaluator.ofDepth 9).answer vacantScope noted vacant
      ({} : EvalState).withCache = some (.ok notedValue, s) := ⟨_, rfl⟩
  have hrequest : Request.Reached vacant Evaluator.ofDepth .proper
      { state := ({} : EvalState).withCache, scopes := [vacantScope] } := .root trivial nofun
  have hall {p : Concrete → Prop} (hlist : p notedValue)
      (hannotated : p (.annotated (.markdown "a") [("n", .integer 7)]))
      (hmarkdown : p (.markdown "a")) (hinteger : p (.integer 7)) :
      notedValue.Throughout Concrete.writtenParts p := by
    refine .intro hlist (List.forall_mem_singleton.mpr (.intro hannotated ?_))
    exact List.forall_mem_cons.mpr ⟨Concrete.throughout_of_atom hmarkdown rfl,
      List.forall_mem_singleton.mpr (Concrete.throughout_of_atom hinteger rfl)⟩
  have hsource : Expr.parse {} "[markdown(\"a\").annotate(n=7)]" = .ok noted := rfl
  obtain ⟨t, w, hparse, hvalue, hsame⟩ := literalText?_denotes Registry.named_builtin hrequest
    List.mem_cons_self hsource hrun rfl (hall trivial trivial trivial trivial)
  exact ⟨hsource, ⟨s, hrun⟩, rfl, t, w, hparse, hvalue,
    hsame.mpr (hall trivial trivial trivial trivial)⟩

/-- The tree of `[range([1, 2])]`. -/
def ranged : Expr :=
  .list [.call (.builtin .range) (some (.list [.literal (.integer 1), .literal (.integer 2)])) []]

/-- A list with a range is written as one with null in its place. -/
theorem literalText?_of_range :
    let value : Concrete := .list [.range (.integer 1) (.integer 2)]
    Expr.parse {} "[range([1, 2])]" = .ok ranged ∧
    (∃ s, (Evaluator.ofDepth 9).answer vacantScope ranged vacant ({} : EvalState).withCache =
      some (.ok value, s)) ∧
    value.literalText? = some "[null]" ∧ Expr.parse {} "[null]" = .ok (.list [.literal .null]) ∧
    Expr.HasValue (.list [.literal .null]) (.list [.null]) ∧
    value.same (.list [.null]) = false := by
  refine ⟨rfl, ⟨_, rfl⟩, rfl, rfl, ?_, rfl⟩
  have hnull : Expr.parse {} "[null]" = .ok (.list [.literal .null]) := rfl
  exact Expr.hasValue_of_constant? (Expr.readable_of_parse Registry.named_builtin hnull) rfl

end GraphExpr
