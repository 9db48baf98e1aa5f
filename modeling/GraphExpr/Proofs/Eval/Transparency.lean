import GraphExpr.Proofs.Eval.Setting

/-! # Cached and plain evaluation

Whatever plain evaluation gives, evaluation with a cache gives as well, from any state that is
truthful and leaves room for as many nested evaluations. An evaluation in progress cannot be met
again: plain evaluation would have to go on for ever.
-/

namespace GraphExpr

namespace Evaluator

def evaluateUnrefused (evaluator : Evaluator) (context : Context) (expression : Expr) :
    EvalM Value := do
  let key := context.cacheKey? expression
  let state ← get
  match key.bind (state.cached? context.cache),
      state.enter (← read).config expression key with
  | none, .error _ => .exhausted
  | _, _ => evaluator.evaluateStep context expression

/-- The evaluator with the given number of levels that has no outcome where an evaluation is
refused, as one that is in progress already or nested too deep. -/
def unrefused : Nat → Evaluator
  | 0 => bottom
  | levels + 1 =>
    { (unrefused levels).above with evaluate := (unrefused levels).evaluateUnrefused }

section

variable {environment : Environment} {evaluator : Evaluator} {c : Context} {e : Expr}
  {s : EvalState}

theorem evaluateUnrefused_run : evaluator.evaluateUnrefused c e environment s =
    (match (c.cacheKey? e).bind (s.cached? c.cache),
        s.enter environment.config e (c.cacheKey? e) with
      | none, .error _ => EvalM.exhausted
      | _, _ => evaluator.evaluateStep c e) environment s :=
  rfl

theorem evaluateUnrefused_cached {value : Value}
    (h : (c.cacheKey? e).bind (s.cached? c.cache) = some value) :
    evaluator.evaluateUnrefused c e environment s = some (.ok value, s) := by
  rw [evaluateUnrefused_run, h]
  obtain ⟨key, hkey, hcached⟩ := Option.bind_eq_some_iff.mp h
  exact evaluator.evaluateStep_cached hkey hcached

theorem evaluateUnrefused_entered {entered : EvalState}
    (hcached : (c.cacheKey? e).bind (s.cached? c.cache) = none)
    (henter : s.enter environment.config e (c.cacheKey? e) = .ok entered) :
    evaluator.evaluateUnrefused c e environment s =
      (evaluator.evaluateNode c e environment entered).map fun r =>
        (settled c e r.1, r.2.finish c.cache (c.cacheKey? e) (settled c e r.1)) := by
  rw [evaluateUnrefused_run, hcached, henter]
  exact evaluator.evaluateStep_entered hcached henter

theorem evaluateUnrefused_eq_some {r : Except Error Value × EvalState}
    (h : evaluator.evaluateUnrefused c e environment s = some r) :
    evaluator.evaluateStep c e environment s = some r := by
  rw [evaluateUnrefused_run] at h
  cases hcached : (c.cacheKey? e).bind (s.cached? c.cache) with
  | some value =>
    rw [hcached] at h
    exact h
  | none =>
    cases henter : s.enter environment.config e (c.cacheKey? e) with
    | error error =>
      rw [hcached, henter] at h
      cases h
    | ok entered =>
      rw [hcached, henter] at h
      exact h

theorem ofDepth_refines_unrefused : ∀ levels, (refinement environment False).Respects
    (fun _ => ofDepth levels) (unrefused levels)
  | 0 => Refinement.bottom
  | levels + 1 => by
    have habove := Refinement.above (ofDepth_refines_unrefused levels)
    refine { apply := fun hs hx => habove.apply hs hx,
             count := fun hv hp => habove.count hv hp,
             slice := fun hv hp offset count => habove.slice hv hp offset count,
             collectFrom := fun hv hp hc hpulled => habove.collectFrom hv hp hc hpulled,
             evaluate := ?_ }
    rintro w e c _ rfl
    intro s hs o s' hrun
    exact Refinement.evaluateStep (ofDepth_refines_unrefused levels) c e s hs o s'
      (evaluateUnrefused_eq_some hrun)

end

end Evaluator

namespace Forum

variable (forum : Forum)

/-- Whenever the right computation finishes, the left ones finish the same way, given enough
levels, and lead to a truthful state. -/
def Holds (nesting levels : Nat) {α β : Type} (w : Meanings) (r : Meanings → α → β → Prop)
    (x : Nat → EvalM α) (y : EvalM β) : Prop :=
  ∀ s t, forum.Truthful w s → forum.Room nesting levels s → t.prepared = [] →
    ∀ o t', y forum.environment t = some (o, t') → t'.prepared = [] ∧ ∃ o' s' w',
      Converges forum.environment x s o' s' ∧ forum.Leads w s w' s' ∧ Agree (r w') o' o

variable {forum} {nesting levels : Nat} {α β γ δ : Type} {w : Meanings}
  {r : Meanings → α → β → Prop} {q : Meanings → γ → δ → Prop}

theorem Holds.of_run {x : EvalM α} {y : EvalM β}
    (h : ∀ s t, forum.Truthful w s → t.prepared = [] → ∃ o o' s' t' w',
      x forum.environment s = some (o', s') ∧ y forum.environment t = some (o, t') ∧
      t'.prepared = [] ∧ forum.Leads w s w' s' ∧ Agree (r w') o' o) :
    forum.Holds nesting levels w r (fun _ => x) y := by
  intro s t hs _ ht o t' hy
  obtain ⟨o₁, o', s', t₁, w', hx, hy₁, ht₁, hleads, hagree⟩ := h s t hs ht
  rw [hy₁] at hy
  cases hy
  exact ⟨ht₁, o', s', w', .of_run hx, hleads, hagree⟩

theorem Holds.pure {a : α} {b : β} (h : r w a b) :
    forum.Holds nesting levels w r (fun _ => Pure.pure a) (Pure.pure b) :=
  .of_run fun s t hs ht => ⟨.ok b, .ok a, s, t, w, rfl, rfl, ht, hs.leads, .ok h⟩

theorem Holds.bind {x : Nat → EvalM α} {y : EvalM β} {f : Nat → α → EvalM γ} {g : β → EvalM δ}
    (h : forum.Holds nesting levels w r x y)
    (hf : ∀ w' a b, w.Grows w' → r w' a b →
      forum.Holds nesting levels w' q (fun n => f n a) (g b)) :
    forum.Holds nesting levels w q (fun n => x n >>= f n) (y >>= g) := by
  intro s t hs hroom ht o t'' hrun
  rcases EvalM.bind_eq_some hrun with ⟨e, hy, rfl⟩ | ⟨b, t', hy, hg⟩
  · obtain ⟨ht', o', s', w', hx, hleads, hagree⟩ := h s t hs hroom ht _ _ hy
    cases hagree
    exact ⟨ht', _, s', w', hx.bind_error, hleads, .error e⟩
  · obtain ⟨ht', o', s', w', hx, hleads, hagree⟩ := h s t hs hroom ht _ _ hy
    cases hagree with
    | ok hab =>
      obtain ⟨ht'', o'', s'', w'', hy', hleads', hagree'⟩ :=
        hf w' _ _ hleads.grown hab s' t' hleads.truthful (hleads.room hroom) ht' _ _ hg
      exact ⟨ht'', o'', s'', w'', hx.bind hy', hleads.trans hleads', hagree'⟩

theorem Holds.execute (q : Query) : forum.Holds nesting levels w
    (only fun rows => forum.environment.outage .execute = none ∧
      rows = forum.environment.graph.execute q)
    (fun _ => Store.execute q) (Store.execute q) := .of_run fun s t hs ht => by
  refine ⟨_, _, _, _, w, Store.execute_run hs.prepared q, Store.execute_run ht q, ht,
    hs.executed q, ?_⟩
  cases forum.environment.outage .execute with
  | some e => exact .error _
  | none => exact .ok ⟨rfl, rfl, rfl⟩

theorem Holds.sortedLater {v v' : Value} {key : Option Lambda} {c d : Context}
    (descending : Bool) (hv : v.Twin forum.frame w v') (hs : Scope.Twin forum.frame w c d)
    (hkey : ∀ l : Lambda, key = some l → forum.Readable (.lambda l.parameter l.body)) :
    forum.Holds nesting levels w
      (fun w' g g' => ∀ pageSize, Value.Twin forum.frame w'
        (.iterable g pageSize none) (.iterable g' pageSize none))
      (fun _ => Evaluator.sortedLater v key descending c)
      (Evaluator.sortedLater v' key descending d) := .of_run fun s t htruthful ht => by
  let d' := { d with cache := t.caches.size }
  let g : Generator := .sorted v' key descending d' t.buffers.size
  have hcache : forum.Leads w s (w.withCache c.user) s.withCache :=
    .withCache htruthful (hs.peers.user ▸ hs.peers.subject.2.1)
  have hbuffer : forum.Leads _ _ ((w.withCache c.user).withBuffer g) _ :=
    .withBuffer hcache.truthful g
  have hleads := hcache.trans hbuffer
  have howns := (w.owns_last c.user htruthful.owners).mono hbuffer.grown
  refine ⟨.ok g, .ok (.sorted v key descending { c with cache := s.caches.size } s.buffers.size),
    { s.withCache with buffers := s.buffers.push none },
    { t.withCache with buffers := t.buffers.push none }, _, rfl, rfl, ht, hleads,
    .ok fun pageSize => .iterable ?_ fun _ _ => trivial⟩
  exact .sorted (hv.mono hleads.grown) hkey
    ((hs.mono hleads.grown).withCaches (fun _ => howns) _)
    (Meanings.tells_last _ _ htruthful.buffers)

end Forum

/-- Cached evaluation compared with plain evaluation, in states with room for the given number of
nested evaluations. -/
def Forum.comparison (forum : Forum) (nesting levels : Nat) : Comparison Nat where
  toRelations := forum.frame.relations
  sized := True
  Holds w r x y := forum.Holds nesting levels w r x y
  pure h := .pure h
  bind h hf := h.bind hf
  raise {α β w r e} _ := .of_run fun s t hs ht =>
    ⟨.error e, .error e, s, t, w, rfl, rfl, ht, hs.leads, .error e⟩
  read h := h fun _ => forum.environment.outage
  consult {α β w r service f g} _ h := .of_run fun s t hs ht => by
    refine ⟨_, _, s, t, w, Store.consult_run service f, Store.consult_run service g, ht, hs.leads,
      ?_⟩
    cases forum.environment.outage service with
    | some e => exact .error _
    | none => exact .ok h
  answer hx hy _ hr := .of_run fun s t hs ht =>
    ⟨_, _, s, t, _, hx forum.environment.outage s, hy t, ht, hs.leads,
      .of_ok fun a ha => hr a (Store.eq_ok_of_stopped ha)⟩
  execute _ := .execute _
  detached {w e c d} h := .of_run fun s t hs ht => by
    have hleads : forum.Leads w s (w.withCache c.user) s.withCache :=
      .withCache hs (h.2.peers.user ▸ h.2.peers.subject.2.1)
    refine ⟨.ok { d with cache := t.caches.size }, .ok { c with cache := s.caches.size },
      s.withCache, t.withCache, _, rfl, rfl, ht, hleads, .ok ⟨h.1, ?_⟩⟩
    exact (h.2.mono hleads.grown).withCaches (fun _ => w.owns_last _ hs.owners) _
  sortedLater descending hv hs hkey := .sortedLater descending hv hs.2 fun l hl => (hkey l hl).1

namespace Forum

variable {forum : Forum} {nesting levels : Nat} {w : Meanings}

theorem Holds.alone {α β : Type} {r : Meanings → α → β → Prop} {x : Nat → EvalM α} {y : EvalM β}
    (h : forum.Holds nesting levels w r (fun n => x (n + 1)) y) :
    forum.Holds nesting (levels + 1) w r x y.alone := by
  intro s t hs hroom ht o t' hrun
  obtain ⟨rfl, t₁, hy⟩ := EvalM.alone_eq_some hrun
  obtain ⟨-, o', s', w', hx, hrest⟩ :=
    h s {} hs (hroom.mono (Nat.le_refl _) (Nat.le_succ _)) rfl o t₁ hy
  exact ⟨ht, o', s', w', hx.shift, hrest⟩

/-! ### Sorted sequences -/

section

variable (h : (forum.comparison nesting levels).Respects Evaluator.unrefused
    (Evaluator.plain nesting levels)) {inner inner' : Value} {key : Option Lambda}
  {descending : Bool} {c d : Context} {buffer buffer' : Nat}
  (hinner : inner.Twin forum.frame w inner')
  (hkey : ∀ l : Lambda, key = some l → forum.Readable (.lambda l.parameter l.body))
  (hs : Scope.Twin forum.frame w c d)
  (hb : w.Tells buffer (.sorted inner' key descending d buffer'))

theorem Truthful.sorts {s : EvalState} (htruthful : forum.Truthful w s)
    (hb : w.Tells buffer (.sorted inner' key descending d buffer')) {items : List Concrete}
    (hitems : (s.buffers[buffer]?).join = some items) :
    forum.Sorts inner' key descending d items := by
  obtain ⟨inner₁, key₁, descending₁, scope₁, buffer₁, htells, hsorts⟩ :=
    htruthful.sorted buffer items (Option.join_eq_some_iff.mp hitems)
  cases htells.symm.trans hb
  exact hsorts

include h hinner hb

theorem countSorted (pageSize : Nat) (source : Option Source) :
    forum.Holds nesting (levels + 1) w
      ((forum.comparison nesting levels).counted
        (.iterable (.sorted inner key descending c buffer) pageSize source))
      (fun n => (Evaluator.unrefused n).count
        (.iterable (.sorted inner key descending c buffer) pageSize source))
      ((Evaluator.plain nesting (levels + 1)).count
        (.iterable (.sorted inner' key descending d buffer') pageSize source)) := by
  intro s t htruthful hroom ht o t' hrun
  obtain ⟨rfl, t₁, hy⟩ := EvalM.alone_eq_some hrun
  rw [Evaluator.countStep_empty _ rfl] at hy
  cases hitems : (s.buffers[buffer]?).join with
  | some items =>
    obtain ⟨hsize, -⟩ := htruthful.sorts hb hitems
    obtain rfl := (Evaluator.plain_count_eq hy).trans hsize
    have hcount : Converges forum.environment (fun n => (Evaluator.unrefused n).countStep
        (.iterable (.sorted inner key descending c buffer) pageSize source)) s
        (.ok items.length) s := ⟨0, fun n _ => (Evaluator.unrefused n).countStep_filled hitems⟩
    refine ⟨ht, .ok items.length, s, w, .shift hcount, htruthful.leads, .ok ⟨rfl, fun _ => ?_⟩⟩
    exact (forum.frame.relations.size_eq hinner).trans hsize
  | none =>
    obtain ⟨-, o', s', w', ⟨N, hx⟩, hrest⟩ := h.count hinner trivial s {} htruthful
      (hroom.mono (Nat.le_refl _) (Nat.le_succ _)) rfl o t₁ hy
    have hcount : Converges forum.environment (fun n => (Evaluator.unrefused n).countStep
        (.iterable (.sorted inner key descending c buffer) pageSize source)) s o' s' :=
      ⟨N, fun n hn => ((Evaluator.unrefused n).countStep_empty hitems).trans (hx n hn)⟩
    exact ⟨ht, o', s', w', .shift hcount, hrest⟩

include hkey hs

/-- The items are sorted as plain evaluation sorts them, if they are not kept already. -/
theorem sortedItems {s t : EvalState} (htruthful : forum.Truthful w s)
    (hroom : forum.Room nesting levels s) {o : Except Error (List Concrete)}
    (hy : (Evaluator.plain nesting levels).sortAll inner' key descending d forum.environment {} =
      some (o, t)) :
    ∃ s' w', Converges forum.environment
        (fun n => (Evaluator.unrefused n).sortedItems inner key descending c buffer) s o s' ∧
      forum.Leads w s w' s' ∧
      ∀ items, o = .ok items → forum.Sorts inner' key descending d items := by
  cases hitems : (s.buffers[buffer]?).join with
  | some items =>
    have hsorts := htruthful.sorts hb hitems
    obtain ⟨-, -, n, l, t', hplain⟩ := hsorts
    obtain rfl := Evaluator.plain_sortAll_unique hy hplain
    refine ⟨s, w, ⟨0, fun n _ => (Evaluator.unrefused n).sortedItems_filled hitems⟩,
      htruthful.leads, ?_⟩
    rintro _ ⟨⟩
    exact htruthful.sorts hb hitems
  | none =>
    obtain ⟨-, o', s', w', hx, hleads, hagree⟩ :=
      h.toPulls.sortAll h.toApplies hinner trivial (fun l hl => ⟨hkey l hl, hs⟩) descending s {}
        htruthful hroom rfl o t hy
    have hsorts : ∀ items, o = .ok items → forum.Sorts inner' key descending d items := by
      rintro items rfl
      cases hagree with
      | ok hab =>
        obtain ⟨rfl, hwithin, hsize⟩ := hab
        refine ⟨?_, hwithin, nesting, levels, t, hy⟩
        rw [← hsize trivial]
        exact (forum.frame.relations.size_eq hinner).symm
    obtain rfl := hagree.eq fun _ _ hab => hab.1
    refine ⟨s'.fill buffer o', w', hx.map (f := id) (k := fun t o => t.fill buffer o) fun n =>
      (Evaluator.unrefused n).sortedItems_empty hitems, ?_, hsorts⟩
    refine ⟨hleads.grown, hleads.truthful.fill (hb.mono hleads.grown) hsorts, hleads.owners,
      ?_, ?_⟩
    · rw [EvalState.fill_depth]
      exact hleads.depth
    · rw [EvalState.fill_inProgress]
      exact hleads.inProgress

theorem sliceSorted (pageSize : Nat) (source : Option Source) (offset count : Nat) :
    forum.Holds nesting (levels + 1) w
      ((forum.comparison nesting levels).sliced
        (.iterable (.sorted inner key descending c buffer) pageSize source) offset count)
      (fun n => (Evaluator.unrefused n).slice
        (.iterable (.sorted inner key descending c buffer) pageSize source) offset count)
      ((Evaluator.plain nesting (levels + 1)).slice
        (.iterable (.sorted inner' key descending d buffer') pageSize source) offset count) := by
  intro s t htruthful hroom ht o t' hrun
  obtain ⟨rfl, t₁, hy⟩ := EvalM.alone_eq_some hrun
  have hroom' := hroom.mono (Nat.le_refl nesting) (Nat.le_succ levels)
  rcases EvalM.bind_eq_some hy with ⟨e, hitems, rfl⟩ | ⟨items, t₂, hitems, hslice⟩
  · rw [Evaluator.sortedItems_empty _ rfl] at hitems
    obtain ⟨⟨p, t₃⟩, hsort, heq⟩ := Option.map_eq_some_iff.mp hitems
    cases heq
    obtain ⟨s', w', hx, hleads, -⟩ := sortedItems h hinner hkey hs hb htruthful hroom' hsort
    exact ⟨ht, _, s', w', .shift hx.bind_error, hleads, .error e⟩
  · rw [Evaluator.sortedItems_empty _ rfl] at hitems
    obtain ⟨⟨p, t₃⟩, hsort, heq⟩ := Option.map_eq_some_iff.mp hitems
    cases heq
    cases hslice
    obtain ⟨s', w', hx, hleads, hsorts⟩ := sortedItems h hinner hkey hs hb htruthful hroom' hsort
    obtain ⟨hsize, hwithin, -⟩ := hsorts items rfl
    refine ⟨ht, _, s', w', .shift (hx.bind (.of_run rfl)), hleads, .ok ⟨rfl, ?_, fun _ _ => ?_⟩⟩
    · exact fun x hx => hwithin x (List.mem_of_mem_drop (List.mem_of_mem_take hx))
    · refine ⟨items.length, (forum.frame.relations.size_eq hinner).trans hsize, by simp⟩

end

theorem pulls (h : (forum.comparison nesting levels).Respects Evaluator.unrefused
      (Evaluator.plain nesting levels)) :
    (forum.comparison nesting (levels + 1)).Pulls Evaluator.unrefused
      (Evaluator.plain nesting (levels + 1)) fun _ => True where
  count {w v v'} hv _ := by
    by_cases hsorted : v.IsSorted
    · obtain ⟨inner, inner', key, descending, c, d, buffer, buffer', pageSize, source, rfl, rfl,
        hinner, -, -, hb⟩ := hv.sorted_of hsorted
      exact countSorted h hinner hb pageSize source
    · exact Holds.alone (x := fun n => (Evaluator.unrefused n).count v)
        (h.toPulls.countStep hv (fun _ _ => trivial) hsorted)
  slice {w v v'} hv _ offset count := by
    by_cases hsorted : v.IsSorted
    · obtain ⟨inner, inner', key, descending, c, d, buffer, buffer', pageSize, source, rfl, rfl,
        hinner, hkey, hs, hb⟩ := hv.sorted_of hsorted
      exact sliceSorted h hinner hkey hs hb pageSize source offset count
    · exact Holds.alone (x := fun n => (Evaluator.unrefused n).slice v offset count)
        (h.toPulls.sliceStep h.toApplies hv (fun _ _ => trivial) hsorted offset count)
  collectFrom {w v v' chunkSize pulled} hv _ hc hpulled :=
    Holds.alone (x := fun n => (Evaluator.unrefused n).collectFrom v chunkSize pulled)
      (h.toPulls.collectStep hv trivial hc hpulled)

/-! ### Evaluations -/

section

variable {c d : Context} {e : Expr} {s : EvalState} (hreadable : forum.Readable e)
  (hs : Scope.Twin forum.frame w c d)

include hreadable hs

/-- Only what no variable decides about has a name, and it does not depend on more than the name
and the user tell. -/
theorem keyed_of_cacheKey? {key : String} (hkey : c.cacheKey? e = some key) :
    c.bindings.isEmpty = true ∧ (forum.as c.user).Keyed key d.entry e ∧
      (forum.as c.user).base d.entry = { d with cache := 0 } := by
  obtain ⟨hempty, hname⟩ := Scope.key_eq_of_cacheKey? hkey
  have hentry : c.entry = d.entry := hs.peers.entry
  exact ⟨hempty, ⟨hs.entry, hreadable, hentry ▸ hname⟩, base_eq_of_twin hs hempty⟩

omit hreadable in
theorem agree_settled {o p : Except Error Value} (h : Agree (Value.Twin forum.frame w) o p) :
    Agree (Value.Twin forum.frame w) (Evaluator.settled c e o) (Evaluator.settled d e p) := by
  refine h.settled (fun _ => .concrete trivial) fun v v' _ hv => ?_
  rw [hs.peers.entry]
  exact hv.withSource trivial

theorem names_settled (hsole : ∀ key ∈ c.cacheKey? e, ∀ user, forum.users user → user = c.user)
    {p : Except Error Value} {t : EvalState}
    (hnode : (Evaluator.plain nesting levels).evaluateNode { d with cache := 0 } e
      forum.environment {} = some (p, t)) {o : Except Error Value}
    (h : Agree (Value.Twin forum.frame w) o (Evaluator.settled d e p)) :
    ∀ key v, c.cacheKey? e = some key → o = .ok v →
      ∃ user, w.Owns c.cache user ∧ forum.Names w user key v := by
  rintro key v hkey rfl
  obtain ⟨-, hkeyed, hbase⟩ := keyed_of_cacheKey? hreadable hs hkey
  have hnobody : Frame.Widens forum.frame (forum.sole c.user).frame :=
    @widens (forum.sole c.user) forum.users (hsole key hkey)
  generalize hright : Evaluator.settled d e p = o' at h
  cases h with
  | @ok _ u hvu =>
    refine ⟨c.user, hs.owns trivial, d.entry, e, u, hkeyed, ⟨nesting + 1, levels + 1, ?_⟩,
      hvu.widen hnobody⟩
    rw [hbase, Evaluator.plain_evaluate_cache]
    exact (Evaluator.plain_evaluate_of_node hnode).trans (by rw [hright])

/-- The evaluation of an expression that is neither cached nor in progress is that of its node. A
result with a name may be cached as long as nobody else is there. -/
theorem evaluateFresh (h : (forum.comparison nesting levels).Respects Evaluator.unrefused
      (Evaluator.plain nesting levels)) {p : Except Error Value} {t : EvalState}
    (hnode : (Evaluator.plain nesting levels).evaluateNode { d with cache := 0 } e
      forum.environment {} = some (p, t)) (htruthful : forum.Truthful w s)
    (hcached : (c.cacheKey? e).bind (s.cached? c.cache) = none)
    (hdepth : s.depth + 1 ≤ forum.environment.config.evaluationDepth)
    (hnew : ∀ key ∈ c.cacheKey? e, key ∉ s.inProgress)
    (hsole : ∀ key ∈ c.cacheKey? e, ∀ user, forum.users user → user = c.user)
    (hroom : forum.Room nesting levels
      { s with depth := s.depth + 1, inProgress := (c.cacheKey? e).toList ++ s.inProgress }) :
    ∃ o s' w', Converges forum.environment (fun n => (Evaluator.unrefused n).evaluate c e) s o s' ∧
      forum.Leads w s w' s' ∧
      Agree (Value.Twin forum.frame w') o (Evaluator.settled d e p) := by
  have hscope : Scope.Twin forum.frame w c { d with cache := 0 } :=
    hs.withCaches hs.owns 0
  obtain ⟨-, o, s', w', hx, hleads, hagree⟩ :=
    h.evaluateNode (w := w) ⟨hreadable, hscope⟩ _ {} (htruthful.enter _ _) hroom rfl p t hnode
  have hs' := hs.mono hleads.grown
  have hsettled : Agree (Value.Twin forum.frame w') (Evaluator.settled c e o)
      (Evaluator.settled d e p) := agree_settled hs' hagree
  have hnames := names_settled hreadable hs' hsole hnode hsettled
  exact ⟨_, _, w', .shift (hx.map (f := Evaluator.settled c e)
    (k := fun t o => t.finish c.cache (c.cacheKey? e) (Evaluator.settled c e o)) fun n =>
      Evaluator.evaluateUnrefused_entered hcached (EvalState.enter_of_lt hdepth hnew)),
    hleads.finish hnames, hsettled⟩

end

theorem Holds.widen {user : Option UserId} (huser : forum.users user) {x : Nat → EvalM Value}
    {y : EvalM Value} (h : (forum.sole user).Holds nesting levels w
      ((forum.sole user).comparison nesting levels).value x y) :
    forum.Holds nesting levels w (forum.comparison nesting levels).value x y := by
  have hmore : ∀ other, other = user → forum.users other := by
    rintro _ rfl
    exact huser
  intro s t htruthful hroom ht o t' hrun
  obtain ⟨ht', o', s', w', hx, hleads, hagree⟩ :=
    h s t (htruthful.sole user) (hroom.sole huser) ht o t' hrun
  refine ⟨ht', o', s', w', hx, hleads.widen hmore, hagree.mono fun _ _ hab => ?_⟩
  exact Value.Twin.widen (widens hmore) hab

section

variable {c d : Context} {e : Expr} (hreadable : forum.Readable e)
  (hs : Scope.Twin forum.frame w c d)

include hreadable hs

theorem evaluateUnnamed (ih : ∀ nesting, (forum.comparison nesting levels).Respects
      Evaluator.unrefused (Evaluator.plain nesting levels)) (hkey : c.cacheKey? e = none) :
    forum.Holds nesting (levels + 1) w (forum.comparison nesting (levels + 1)).value
      (fun n => (Evaluator.unrefused n).evaluate c e)
      ((Evaluator.plain nesting (levels + 1)).evaluate d e) := by
  intro s t htruthful hroom ht o t' hrun
  obtain ⟨rfl, n, l, p, t₁, rfl, hl, rfl, hnode⟩ := Evaluator.plain_evaluate_eq_some hrun
  cases hl
  have hdepth := hroom.depth
  have hinner := hroom.mono (Nat.le_succ n) (Nat.le_succ levels)
  have hentered : forum.Room n levels
      { s with depth := s.depth + 1, inProgress := (c.cacheKey? e).toList ++ s.inProgress } := by
    rw [hkey]
    exact ⟨by simp only; omega, hinner.inProgress⟩
  exact ⟨ht, evaluateFresh hreadable hs (ih n) hnode htruthful (by rw [hkey]; rfl) (by omega)
    (by simp [hkey]) (by simp [hkey]) hentered⟩

theorem evaluateCached {key : String} (hkey : c.cacheKey? e = some key)
    (htruthful : forum.Truthful w s) {v : Value} (hcached : s.cached? c.cache key = some v)
    {p : Except Error Value} {t : EvalState}
    (hplain : (Evaluator.plain nesting levels).evaluate ((forum.as c.user).base d.entry) e
      forum.environment {} = some (p, t)) :
    Converges forum.environment (fun n => (Evaluator.unrefused n).evaluate c e) s (.ok v) s ∧
      Agree (Value.Twin forum.frame w) (.ok v) p := by
  have huser : forum.users c.user := hs.peers.user ▸ hs.peers.subject.2.1
  obtain ⟨-, hkeyed, -⟩ := keyed_of_cacheKey? hreadable hs hkey
  obtain ⟨owner, howner, entry, e', u, hkeyed', ⟨n, l, hgives⟩, hvu⟩ :=
    htruthful.caches _ _ _ hcached
  obtain rfl : c.user = owner := Option.some.inj ((hs.owns trivial).symm.trans howner)
  -- The name stands for one expression on one entry, so the kept result is that of `e`.
  obtain ⟨rfl, rfl⟩ := hkeyed'.unique hkeyed
  have hfound : (c.cacheKey? e').bind (s.cached? c.cache) = some v := by
    rw [hkey]
    exact hcached
  have hmore : Frame.Widens (forum.sole c.user).frame forum.frame := by
    apply widens
    rintro _ rfl
    exact huser
  refine ⟨.shift ⟨0, fun k _ => Evaluator.evaluateUnrefused_cached hfound⟩, ?_⟩
  rw [Evaluator.plain_evaluate_unique hplain hgives]
  exact .ok (hvu.widen hmore)

theorem not_mem_inProgress {key : String} (hkey : c.cacheKey? e = some key)
    (hroom : forum.Room nesting levels s) {r : Except Error Value × EvalState}
    (hplain : (Evaluator.plain nesting levels).evaluate ((forum.as c.user).base d.entry) e
      forum.environment {} = some r) : key ∉ s.inProgress := by
  intro hmem
  have huser : forum.users c.user := hs.peers.user ▸ hs.peers.subject.2.1
  obtain ⟨-, hkeyed, -⟩ := keyed_of_cacheKey? hreadable hs hkey
  obtain ⟨entry, e', hevery⟩ := hroom.inProgress key hmem
  obtain ⟨hkeyed', hnone⟩ := hevery c.user huser
  obtain ⟨rfl, rfl⟩ := hkeyed'.unique hkeyed
  rw [hplain] at hnone
  cases hnone

/-- An evaluation in progress is not met again: where plain evaluation finishes with the levels
at hand, it does so at the last with levels that are not enough for the same evaluation further
in. -/
theorem evaluateNamed (ih : ∀ nesting, (forum.comparison nesting levels).Respects
      Evaluator.unrefused (Evaluator.plain nesting levels))
    (hsole : ∀ user, forum.users user → user = c.user) {key : String}
    (hkey : c.cacheKey? e = some key) :
    forum.Holds nesting (levels + 1) w (forum.comparison nesting (levels + 1)).value
      (fun n => (Evaluator.unrefused n).evaluate c e)
      ((Evaluator.plain nesting (levels + 1)).evaluate d e) := by
  intro s t htruthful hroom ht o t' hrun
  obtain ⟨rfl, n, l, p, t₁, rfl, hl, rfl, hnode⟩ := Evaluator.plain_evaluate_eq_some hrun
  cases hl
  have hdepth := hroom.depth
  have hinner := hroom.mono (Nat.le_succ n) (Nat.le_succ levels)
  obtain ⟨-, hkeyed, hbase⟩ := keyed_of_cacheKey? hreadable hs hkey
  have hplain : (Evaluator.plain (n + 1) (levels + 1)).evaluate ((forum.as c.user).base d.entry) e
      forum.environment {} = some (Evaluator.settled d e p, {}) := by
    rw [hbase, Evaluator.plain_evaluate_cache, Evaluator.plain_evaluate_of_node hnode]
  cases hcached : s.cached? c.cache key with
  | some v =>
    obtain ⟨hx, hagree⟩ := evaluateCached hreadable hs hkey htruthful hcached hplain
    exact ⟨ht, .ok v, s, w, hx, htruthful.leads, hagree⟩
  | none =>
    cases hless : (Evaluator.plain (n + 1) levels).evaluate ((forum.as c.user).base d.entry) e
        forum.environment {} with
    | some r =>
      -- Fewer levels are enough, so the evaluation is already known to hold together.
      obtain ⟨o, t₂⟩ := r
      obtain rfl := Evaluator.plain_evaluate_unique hless hplain
      have hrun' : (Evaluator.plain (n + 1) levels).evaluate d e forum.environment {} =
          some (Evaluator.settled d e p, t₂) := by
        rw [← Evaluator.plain_evaluate_cache _ _ 0 d, ← hbase, hless]
      obtain ⟨-, hrest⟩ := (ih (n + 1)).evaluate (w := w) ⟨hreadable, hs⟩ s {} htruthful
        (hroom.mono (Nat.le_refl _) (Nat.le_succ _)) rfl _ _ hrun'
      exact ⟨ht, hrest⟩
    | none =>
      -- Every level is needed, so the same evaluation further in would not finish.
      have hentered : forum.Room n levels { s with
          depth := s.depth + 1, inProgress := (c.cacheKey? e).toList ++ s.inProgress } := by
        rw [hkey]
        refine ⟨by simp only; omega, List.forall_mem_cons.mpr ⟨?_, hinner.inProgress⟩⟩
        refine ⟨d.entry, e, fun user hany => ?_⟩
        obtain rfl := hsole user hany
        exact ⟨hkeyed, plain_none_mono (Nat.le_succ n) (Nat.le_refl _) hless⟩
      refine ⟨ht, evaluateFresh hreadable hs (ih n) hnode htruthful (by rw [hkey]; exact hcached)
        (by omega) ?_ (fun _ _ => hsole) hentered⟩
      rw [hkey]
      rintro _ ⟨⟩
      exact not_mem_inProgress hreadable hs hkey hroom hplain

end

theorem evaluate (ih : ∀ (forum : Forum) nesting, (forum.comparison nesting levels).Respects
      Evaluator.unrefused (Evaluator.plain nesting levels)) {c d : Context} {e : Expr}
    (hs : (forum.comparison nesting (levels + 1)).scope w e c d) :
    forum.Holds nesting (levels + 1) w (forum.comparison nesting (levels + 1)).value
      (fun n => (Evaluator.unrefused n).evaluate c e)
      ((Evaluator.plain nesting (levels + 1)).evaluate d e) := by
  obtain ⟨hreadable, htwin⟩ := hs
  cases hkey : c.cacheKey? e with
  | none => exact evaluateUnnamed hreadable htwin (ih forum) hkey
  | some key =>
    obtain ⟨hempty, -, -⟩ := keyed_of_cacheKey? hreadable htwin hkey
    have huser : forum.users c.user := htwin.peers.user ▸ htwin.peers.subject.2.1
    apply Holds.widen huser
    exact evaluateNamed hreadable (twin_sole htwin hempty) (ih _) (fun _ h => h) hkey

/-- Everything that plain evaluation gives is given with caches as well. -/
theorem respects (levels : Nat) : ∀ (forum : Forum) nesting,
    (forum.comparison nesting levels).Respects Evaluator.unrefused
      (Evaluator.plain nesting levels) := by
  induction levels with
  | zero =>
    intro forum nesting
    have hnever {α β : Type} {w : Meanings} {r : Meanings → α → β → Prop} {x : Nat → EvalM α} :
        forum.Holds nesting 0 w r x EvalM.exhausted := by
      intro s t _ _ _ o t' hrun
      cases hrun
    exact { apply := fun _ _ => hnever, count := fun _ _ => hnever, slice := fun _ _ _ _ => hnever,
            collectFrom := fun _ _ _ _ => hnever, evaluate := fun _ => hnever }
  | succ levels ih =>
    intro forum nesting
    have hpulls := pulls (ih forum nesting)
    exact { toPulls := hpulls, evaluate := fun hs => evaluate ih hs, apply := fun hs hx =>
      Holds.alone (x := fun n => (Evaluator.unrefused n).apply _ _ _) <|
        (ih forum nesting).applyStep hs hx }

end Forum

end GraphExpr
