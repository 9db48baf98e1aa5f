import GraphExpr.Proofs.Eval.Items
import GraphExpr.Proofs.Eval.Limits
import GraphExpr.Proofs.Eval.Node
import GraphExpr.Proofs.Eval.Refinement
import GraphExpr.Proofs.Eval.Twins

/-! # Convergence

An evaluator whose lambdas may call each other only so deep finishes, given enough levels. The
nesting of evaluations is bounded by the settings, and the items of a value are computed from
those of the values that it is made from, so that only lambdas could go on for ever.
-/

namespace GraphExpr

namespace Convergence

def frame (environment : Environment) : Frame where
  toRealm := Refinement.realm environment
  owned := False
  expr _ := True
  expr_source _ _ := trivial
  expr_literal _ := trivial
  expr_item _ _ _ := trivial
  expr_object _ := trivial
  expr_positional _ _ _ := trivial
  expr_named _ _ _ := trivial
  expr_builtin _ := trivial
  expr_body _ := trivial
  expr_stored _ _ := trivial

/-- A state at some depth of nesting whose sorted sequences have all of their items, and whose
cached results are made of sequences with a meaning. -/
structure Ready (environment : Environment) (depth : Nat) (w : Meanings) (s : EvalState) :
    Prop where
  prepared : s.prepared = []
  depth : s.depth = depth
  buffers : s.buffers.size = w.buffers.length
  sorted : ∀ buffer items, s.buffers[buffer]? = some (some items) →
    ∃ g, w.Tells buffer g ∧ g.size environment = .ok items.length
  caches : ∀ cache key v, s.cached? cache key = some v → ∃ v', v.Twin (frame environment) w v'

/-- The computations run to the same end, and a result has a twin. -/
def Holds (environment : Environment) (depth : Nat) {α β : Type} (w : Meanings)
    (r : Meanings → α → β → Prop) (x : Nat → EvalM α) : Prop :=
  ∀ s, Ready environment depth w s → ∃ o s' w', Converges environment x s o s' ∧ w.Grows w' ∧
    Ready environment depth w' s' ∧ ∀ a, o = .ok a → ∃ b, r w' a b

variable {environment : Environment} {depth : Nat} {w : Meanings} {s : EvalState}

theorem Holds.of_run {α β : Type} {r : Meanings → α → β → Prop} {y : EvalM α}
    (h : ∀ s, Ready environment depth w s → ∃ o s' w', y environment s = some (o, s') ∧
      w.Grows w' ∧ Ready environment depth w' s' ∧ ∀ a, o = .ok a → ∃ b, r w' a b) :
    Holds environment depth w r fun _ => y := by
  intro s hs
  obtain ⟨o, s', w', hrun, hrest⟩ := h s hs
  exact ⟨o, s', w', .of_run hrun, hrest⟩

theorem Holds.pure {α β : Type} {r : Meanings → α → β → Prop} {a : α} {b : β} (h : r w a b) :
    Holds environment depth w r fun _ => Pure.pure a := .of_run fun s hs =>
  ⟨.ok a, s, w, rfl, Meanings.Grows.refl w, hs, by rintro _ ⟨⟩; exact ⟨b, h⟩⟩

theorem Holds.bind {α β γ δ : Type} {r : Meanings → α → β → Prop} {q : Meanings → γ → δ → Prop}
    {x : Nat → EvalM α} {f : Nat → α → EvalM γ} (h : Holds environment depth w r x)
    (hf : ∀ w' a b, w.Grows w' → r w' a b → Holds environment depth w' q fun n => f n a) :
    Holds environment depth w q fun n => x n >>= f n := by
  intro s hs
  obtain ⟨o, s', w', hx, hw, hs', hr⟩ := h s hs
  cases o with
  | error e => exact ⟨.error e, s', w', hx.bind_error, hw, hs', by simp⟩
  | ok a =>
    obtain ⟨b, hab⟩ := hr a rfl
    obtain ⟨o', s'', w'', hy, hw', hs'', hq⟩ := hf w' a b hw hab s' hs'
    exact ⟨o', s'', w'', hx.bind hy, hw.trans hw', hs'', hq⟩

theorem Holds.mono {α β γ : Type} {r : Meanings → α → β → Prop} {q : Meanings → α → γ → Prop}
    {x : Nat → EvalM α} (h : Holds environment depth w r x)
    (hr : ∀ w' a b, r w' a b → ∃ b', q w' a b') : Holds environment depth w q x := by
  intro s hs
  obtain ⟨o, s', w', hx, hw, hs', hresult⟩ := h s hs
  refine ⟨o, s', w', hx, hw, hs', fun a ha => ?_⟩
  obtain ⟨b, hab⟩ := hresult a ha
  exact hr w' a b hab

theorem Ready.withCache (h : Ready environment depth w s) :
    Ready environment depth w s.withCache where
  prepared := h.prepared
  depth := h.depth
  buffers := h.buffers
  sorted := h.sorted
  caches cache key v hv := by
    rw [EvalState.cached?_withCache] at hv
    exact h.caches cache key v hv

theorem Ready.withBuffer (h : Ready environment depth w s) (g : Generator) :
    Ready environment depth (w.withBuffer g) { s with buffers := s.buffers.push none } where
  prepared := h.prepared
  depth := h.depth
  buffers := by simp [h.buffers, Meanings.withBuffer]
  sorted buffer items hitems := by
    obtain ⟨g', hg', hsize⟩ := h.sorted buffer items (EvalState.getElem?_of_push hitems)
    exact ⟨g', hg'.mono (w.grows_withBuffer g), hsize⟩
  caches cache key v hv := by
    obtain ⟨v', hv'⟩ := h.caches cache key v hv
    exact ⟨v', hv'.mono (w.grows_withBuffer g)⟩

theorem holds_sortedLater {v v' : Value} {key : Option Lambda} {c d : Context}
    (descending : Bool) (hv : v.Twin (frame environment) w v')
    (hs : Scope.Twin (frame environment) w c d) :
    Holds environment depth w
      (fun w' g g' => ∀ pageSize, Value.Twin (frame environment) w'
        (.iterable g pageSize none) (.iterable g' pageSize none))
      (fun _ => Evaluator.sortedLater v key descending c) := .of_run fun s hready => by
  have hw := w.grows_withBuffer (.sorted v' key descending d 0)
  refine ⟨.ok (.sorted v key descending { c with cache := s.caches.size } s.buffers.size),
    { s.withCache with buffers := s.buffers.push none }, _, rfl, hw,
    hready.withCache.withBuffer _, ?_⟩
  rintro _ ⟨⟩
  refine ⟨.sorted v' key descending d 0, fun pageSize => .iterable ?_ fun _ _ => trivial⟩
  exact .sorted (hv.mono hw) (fun _ _ => trivial) ((hs.withCaches False.elim _).mono hw)
    (Meanings.tells_last _ _ hready.buffers)

end Convergence

open Convergence in
/-- The computations at a depth of nesting finish, given enough levels. -/
def convergence (environment : Environment) (depth : Nat) : Comparison Nat where
  toRelations := (frame environment).relations
  sized := True
  Holds w r x _ := Holds environment depth w r x
  pure h := .pure h
  bind h hf := h.bind hf
  raise {α β w r e} _ := .of_run fun s hs =>
    ⟨.error e, s, w, rfl, Meanings.Grows.refl w, hs, by simp⟩
  read h := h fun _ => environment.outage
  consult {α β w r service f g} _ h := .of_run fun s hs => by
    refine ⟨_, s, w, Store.consult_run service f, Meanings.Grows.refl w, hs, fun a ha => ?_⟩
    cases hoff : environment.outage service with
    | some e =>
      rw [hoff] at ha
      cases ha
    | none =>
      rw [hoff] at ha
      cases ha
      exact ⟨_, h⟩
  answer {α w r x y calls o} hx _ _ hr := .of_run fun s hs =>
    ⟨_, s, w, hx environment.outage s, Meanings.Grows.refl w, hs,
      fun a ha => ⟨a, hr a (Store.eq_ok_of_stopped ha)⟩⟩
  execute {w q} _ := .of_run fun s hs => by
    refine ⟨_, _, w, Store.execute_run hs.prepared q, Meanings.Grows.refl w, ⟨hs.prepared, hs.depth,
      hs.buffers, hs.sorted, hs.caches⟩, fun a ha => ?_⟩
    cases hoff : environment.outage .execute with
    | some e =>
      rw [hoff] at ha
      cases ha
    | none =>
      rw [hoff] at ha
      cases ha
      exact ⟨_, rfl, hoff, rfl⟩
  detached {w e c d} h := .of_run fun s hs =>
    ⟨.ok { c with cache := s.caches.size }, s.withCache, w, rfl, Meanings.Grows.refl w,
      hs.withCache, by rintro _ ⟨⟩; exact ⟨d, trivial, h.2.withCaches False.elim _⟩⟩
  sortedLater descending hv hs _ := holds_sortedLater descending hv hs.2

/-! ### Sequences -/

namespace Convergence

variable {environment : Environment} {depth : Nat} {w : Meanings} {E : Nat → Evaluator}
  {F : Evaluator} {p : Value → Prop}

theorem Holds.shift {α β : Type} {r : Meanings → α → β → Prop} {x : Nat → EvalM α}
    (h : Holds environment depth w r fun n => x (n + 1)) : Holds environment depth w r x := by
  intro s hs
  obtain ⟨o, s', w', hx, hrest⟩ := h s hs
  exact ⟨o, s', w', hx.shift, hrest⟩

theorem Ready.size_eq {s : EvalState} (h : Ready environment depth w s) {inner inner' : Value}
    {key : Option Lambda} {descending : Bool} {scope : Context} {buffer buffer' : Nat}
    (hinner : inner.Twin (frame environment) w inner')
    (hb : w.Tells buffer (.sorted inner' key descending scope buffer'))
    {items : List Concrete} (hitems : (s.buffers[buffer]?).join = some items) :
    inner.size environment = .ok items.length := by
  obtain ⟨g, hg, hsize⟩ := h.sorted buffer items (Option.join_eq_some_iff.mp hitems)
  have hsame : Generator.sorted inner' key descending scope buffer' = g :=
    Option.some.inj (hb.symm.trans hg)
  rw [← hsame] at hsize
  exact ((frame environment).relations.size_eq hinner).trans hsize

theorem Ready.fill {s : EvalState} (h : Ready environment depth w s) {buffer : Nat}
    {g : Generator} (hb : w.Tells buffer g) {o : Except Error (List Concrete)}
    (ho : ∀ items, o = .ok items → g.size environment = .ok items.length) :
    Ready environment depth w (s.fill buffer o) where
  prepared := by simp [h.prepared]
  depth := by simp [h.depth]
  buffers := by simp [h.buffers]
  sorted buffer' items hitems := by
    rcases EvalState.getElem?_fill hitems with ⟨rfl, hok⟩ | hold
    · exact ⟨g, hb, ho items hok⟩
    · exact h.sorted buffer' items hold
  caches cache key v hv := by
    rw [EvalState.cached?_fill] at hv
    exact h.caches cache key v hv

section

variable (h : (convergence environment depth).Pulls E F p)
  (ha : (convergence environment depth).Applies E F) {inner inner' : Value} {key : Option Lambda}
  {descending : Bool} {c d : Context} {buffer buffer' : Nat}
  (hinner : inner.Twin (frame environment) w inner') (hp : p inner)
  (hs : Scope.Twin (frame environment) w c d)
  (hb : w.Tells buffer (.sorted inner' key descending d buffer'))

include h hinner hp hb

theorem countSorted (pageSize : Nat) (source : Option Source) :
    Holds environment depth w
      ((convergence environment depth).counted
        (.iterable (.sorted inner key descending c buffer) pageSize source))
      fun n => (E n).countStep (.iterable (.sorted inner key descending c buffer) pageSize
        source) := by
  intro s hready
  cases hitems : (s.buffers[buffer]?).join with
  | some items =>
    refine ⟨.ok items.length, s, w, ⟨0, fun n _ => (E n).countStep_filled hitems⟩,
      Meanings.Grows.refl w, hready, ?_⟩
    rintro _ ⟨⟩
    exact ⟨items.length, rfl, fun _ => hready.size_eq hinner hb hitems⟩
  | none =>
    obtain ⟨o, s', w', ⟨N, hx⟩, hrest⟩ := h.count hinner hp s hready
    exact ⟨o, s', w', ⟨N, fun n hn => ((E n).countStep_empty hitems).trans (hx n hn)⟩, hrest⟩

include ha hs

theorem sortedItems : Holds environment depth w
    (only fun items => inner.size environment = .ok items.length)
    fun n => (E n).sortedItems inner key descending c buffer := by
  intro s hready
  cases hitems : (s.buffers[buffer]?).join with
  | some items =>
    refine ⟨.ok items, s, w, ⟨0, fun n _ => (E n).sortedItems_filled hitems⟩,
      Meanings.Grows.refl w, hready, ?_⟩
    rintro _ ⟨⟩
    exact ⟨items, rfl, hready.size_eq hinner hb hitems⟩
  | none =>
    obtain ⟨o, s', w', hx, hw, hready', hr⟩ :=
      h.sortAll ha hinner hp (fun _ _ => ⟨trivial, hs⟩) descending s hready
    have hsize : ∀ items, o = .ok items → inner.size environment = .ok items.length := by
      intro items hok
      obtain ⟨_, rfl, -, hsize⟩ := hr items hok
      exact hsize trivial
    refine ⟨o, s'.fill buffer o, w', hx.map (f := id) (k := fun t o => t.fill buffer o) fun n =>
      (E n).sortedItems_empty hitems, hw,
      hready'.fill (hb.mono hw) fun items hok => ?_, fun items hok => ⟨items, rfl, hsize items hok⟩⟩
    rw [← hsize items hok]
    exact ((frame environment).relations.size_eq hinner).symm

theorem sliceSorted (pageSize : Nat) (source : Option Source) (offset count : Nat) :
    Holds environment depth w
      ((convergence environment depth).sliced
        (.iterable (.sorted inner key descending c buffer) pageSize source) offset count)
      fun n => (E n).sliceStep (.iterable (.sorted inner key descending c buffer) pageSize source)
        offset count := by
  have hitems := sortedItems h ha hinner hp hs hb
  refine hitems.bind ?_
  rintro w' items _ _ ⟨rfl, hsize⟩
  refine .pure ⟨rfl, ?_, fun _ _ => ?_⟩
  · exact fun x _ => Refinement.within_allowed environment x
  · exact ⟨items.length, hsize, by simp⟩

end

section

variable (hE : Evaluator.Climbs E)

include hE

/-- Collecting ends, as slices behind the last item are not full. -/
theorem collectFrom {v : Value}
    (hslice : ∀ {w v'}, v.Twin (frame environment) w v' → ∀ offset count,
      Holds environment depth w ((convergence environment depth).sliced v offset count)
        fun n => (E n).slice v offset count)
    {chunkSize : Nat} (hc : 0 < chunkSize) (left : Nat) {w : Meanings} {v' : Value}
    (hv : v.Twin (frame environment) w v') {pulled : List Concrete}
    (hleft : ∀ n, v.size environment = .ok n → n - pulled.length ≤ left) :
    Holds environment depth w ((convergence environment depth).collected v pulled.length)
      fun n => (E n).collectFrom v chunkSize pulled := by
  induction left using Nat.strongRecOn generalizing w pulled with
  | ind left ih =>
    refine .shift ?_
    simp only [hE.collectFrom]
    unfold Evaluator.collectStep
    refine (hslice hv pulled.length chunkSize).bind ?_
    rintro w' chunk _ hw ⟨rfl, -, hsliced⟩
    split
    next hlast =>
      refine .pure ⟨rfl, ?_, fun hsized => (hsliced hsized).collected hc hlast⟩
      exact fun x _ => Refinement.within_allowed environment x
    next hmore =>
      obtain ⟨n, hn, hlength⟩ := hsliced trivial (by omega)
      have hfewer : n - (pulled ++ chunk).length < left := by
        have hle := hleft n hn
        rw [List.length_append]
        omega
      refine Holds.mono (x := fun n => (E n).collectFrom v chunkSize (pulled ++ chunk))
        (ih _ hfewer (hv.mono hw) ?_) ?_
      · intro n' hn'
        obtain rfl := Except.ok.inj (hn'.symm.trans hn)
        exact Nat.le_refl _
      · rintro w'' items _ ⟨rfl, hitems, hcollected⟩
        exact ⟨items, rfl, hitems, fun hsized =>
          (hsliced hsized).resume hc hmore (hcollected hsized)⟩

/-- The items of values can be computed, if lambdas can be applied: those of a value are computed
from those of the values that it is made from. -/
theorem pulls (ha : (convergence environment depth).Applies E F) :
    ∀ r, (convergence environment depth).Pulls E F fun v => v.rank < r
  | 0 => {
      count := fun _ hr => absurd hr (Nat.not_lt_zero _)
      slice := fun _ hr => absurd hr (Nat.not_lt_zero _)
      collectFrom := fun _ hr => absurd hr (Nat.not_lt_zero _) }
  | r + 1 => by
    have hbelow := pulls ha r
    have hneeds {v u : Value} (hr : v.rank < r + 1) (hu : v.Needs u) : u.rank < r :=
      Nat.lt_of_lt_of_le hu.rank_lt (Nat.le_of_lt_succ hr)
    have hslice {w : Meanings} {v v' : Value} (hv : v.Twin (frame environment) w v')
        (hr : v.rank < r + 1) (offset count : Nat) : Holds environment depth w
          ((convergence environment depth).sliced v offset count)
          fun n => (E n).slice v offset count := by
      refine .shift ?_
      simp only [hE.slice]
      by_cases hsorted : v.IsSorted
      · obtain ⟨inner, inner', key, descending, c, d, buffer, buffer', pageSize, source, rfl,
          -, hinner, -, hs, hb⟩ := hv.sorted_of hsorted
        exact sliceSorted hbelow ha hinner (hneeds hr rfl) hs hb pageSize source offset count
      · exact hbelow.sliceStep ha hv (fun u hu => hneeds hr hu) hsorted offset count
    have hcount {w : Meanings} {v v' : Value} (hv : v.Twin (frame environment) w v')
        (hr : v.rank < r + 1) : Holds environment depth w
          ((convergence environment depth).counted v) fun n => (E n).count v := by
      refine .shift ?_
      simp only [hE.count]
      by_cases hsorted : v.IsSorted
      · obtain ⟨inner, inner', key, descending, c, d, buffer, buffer', pageSize, source, rfl,
          -, hinner, -, hs, hb⟩ := hv.sorted_of hsorted
        exact countSorted hbelow hinner (hneeds hr rfl) hb pageSize source
      · exact hbelow.countStep hv (fun u hu => hneeds hr hu) hsorted
    refine { count := fun hv hr => hcount hv hr, slice := fun hv hr => hslice hv hr,
             collectFrom := ?_ }
    intro w v v' chunkSize pulled hv hr hc _
    cases hn : v.size environment with
    | ok n =>
      refine collectFrom hE (fun hv => hslice hv hr) hc n hv fun n' hn' => ?_
      obtain rfl := Except.ok.inj (hn'.symm.trans hn)
      exact Nat.sub_le _ _
    | error e =>
      refine collectFrom hE (fun hv => hslice hv hr) hc 0 hv fun n' hn' => ?_
      cases hn'.symm.trans hn

omit hE in
theorem twin_settled {c : Context} {e : Expr} {o : Except Error Value}
    (ho : ∀ v, o = .ok v → ∃ v', v.Twin (frame environment) w v') :
    ∀ v, Evaluator.settled c e o = .ok v → ∃ v', v.Twin (frame environment) w v' := by
  intro v hv
  rcases Evaluator.settled_eq_ok hv with ⟨u, rfl, rfl⟩ | ⟨error, rfl⟩
  · obtain ⟨u', hu⟩ := ho u rfl
    exact ⟨_, hu.withSource trivial⟩
  · exact ⟨_, .concrete trivial⟩

theorem evaluate (h : depth < environment.config.evaluationDepth →
    (convergence environment (depth + 1)).Respects E F) {c d : Context} {e : Expr}
    (hs : (convergence environment depth).scope w e c d) :
    Holds environment depth w (convergence environment depth).value
      fun n => (E n).evaluate c e := by
  intro s hready
  cases s.starts environment.config c e with
  | @cached _ value hkey hcached =>
    refine ⟨.ok value, s, w, .cached hE hkey hcached, Meanings.Grows.refl w, hready, ?_⟩
    rintro _ ⟨⟩
    exact hready.caches _ _ _ hcached
  | refused hcached henter =>
    refine ⟨_, s, w, .refused hE hcached henter, Meanings.Grows.refl w, hready, ?_⟩
    rintro _ ⟨⟩
    exact ⟨_, .concrete trivial⟩
  | @entered entered hcached henter =>
    obtain ⟨hdepth, -, hstate⟩ := EvalState.enter_eq_ok henter
    have hentered : Ready environment (depth + 1) w entered := by
      subst hstate
      exact ⟨hready.prepared, congrArg Nat.succ hready.depth, hready.buffers, hready.sorted,
        hready.caches⟩
    rw [hready.depth] at hdepth
    obtain ⟨o, s', w', hx, hw, hready', hr⟩ := (h hdepth).evaluateNode hs entered hentered
    have hsettled := twin_settled (c := c) (e := e) hr
    refine ⟨_, _, w', .entered hE hcached henter hx, hw, ?_, hsettled⟩
    refine ⟨by simp [hready'.prepared], by simp [hready'.depth], by simp [hready'.buffers], ?_,
      ?_⟩
    · intro buffer items hitems
      rw [EvalState.finish_buffers] at hitems
      exact hready'.sorted buffer items hitems
    · intro cache key v hv
      rcases EvalState.cached?_finish hv with ⟨-, -, hok⟩ | hold
      · exact hsettled v hok
      · exact hready'.caches cache key v hold

/-- If lambdas can be applied at every depth of nesting, then everything can be computed there:
evaluations are nested only so deep. -/
theorem respects (ha : ∀ depth, (convergence environment depth).Applies E F) (left : Nat) :
    ∀ depth, environment.config.evaluationDepth ≤ depth + left →
      (convergence environment depth).Respects E F := by
  have hpulls (depth : Nat) : (convergence environment depth).Pulls E F fun _ => True :=
    { count := fun hv _ => (pulls hE (ha depth) _).count hv (Nat.lt_succ_self _)
      slice := fun hv _ => (pulls hE (ha depth) _).slice hv (Nat.lt_succ_self _)
      collectFrom := fun hv _ => (pulls hE (ha depth) _).collectFrom hv (Nat.lt_succ_self _) }
  have hlevel {depth : Nat} (h : depth < environment.config.evaluationDepth →
      (convergence environment (depth + 1)).Respects E F) :
      (convergence environment depth).Respects E F :=
    { toApplies := ha depth, toPulls := hpulls depth, evaluate := fun hs => evaluate hE h hs }
  induction left with
  | zero => exact fun depth hle => hlevel fun hlt => by omega
  | succ left ih => exact fun depth hle => hlevel fun _ => ih (depth + 1) (by omega)

end

end Convergence

end GraphExpr
