import GraphExpr.Proofs.Eval.Transparency

/-! # Evaluations that are not refused

Whatever evaluation with a cache gives without being refused, from any state that is truthful, plain
evaluation gives as well. So nothing that has been cached can make up for an evaluation that would
go on for ever.
-/

namespace GraphExpr

/-! ### The other way round -/

theorem Context.Same.symm {c d : Context} (h : Context.Same c d) : Context.Same d c :=
  ⟨h.site.symm, h.user.symm, h.entry.symm, h.pageSize.symm⟩

theorem Realm.Peers.symm {R : Realm} {c d : Context} (h : R.Peers c d) : R.Peers d c := by
  refine ⟨h.toSame.symm, ?_⟩
  rw [h.site, h.user, h.pageSize]
  exact h.subject

theorem Realm.Peers.trans {R : Realm} {c d d' : Context} (h : R.Peers c d) (h' : R.Peers d d') :
    R.Peers c d' :=
  ⟨⟨h.site.trans h'.site, h.user.trans h'.user, h.entry.trans h'.entry,
    h.pageSize.trans h'.pageSize⟩, h'.subject⟩

section

variable {R : Realm} {value : Value → Value → Prop} {scope : Expr → Context → Context → Prop}

theorem Generator.Linked.flip {g g' : Generator} (h : g.Linked R value scope g') :
    g'.Linked R (fun v v' => value v' v) (fun e c d => scope e d c) g := by
  cases h with
  | mapped hv hs => exact .mapped hv hs
  | sorted hv hkey => exact .sorted hv hkey
  | annotated hv ha => exact .annotated hv ha
  | detailed hset hp hpeers => exact .detailed hset hp hpeers.symm

theorem Value.Linked.flip {v v' : Value} (h : v.Linked R value scope v') :
    v'.Linked R (fun v v' => value v' v) (fun e c d => scope e d c) v := by
  cases h with
  | concrete ha => exact .concrete ha
  | entrySet hset hsource => exact .entrySet hset hsource
  | iterable hg hsource => exact .iterable hg.flip hsource

end

def Relations.flip (R : Relations) : Relations where
  toRealm := R.toRealm
  World := R.World
  Extends := R.Extends
  value w v v' := R.value w v' v
  scope w e c d := R.scope w e d c
  refl := R.refl
  trans := R.trans
  value_mono := R.value_mono
  scope_mono := R.scope_mono
  value_linked h := (R.value_linked h).flip
  value_concrete := R.value_concrete
  value_entrySet := R.value_entrySet
  value_mapped := R.value_mapped
  value_annotated := R.value_annotated
  value_detailed := R.value_detailed
  scope_peers h := (R.scope_peers h).symm
  scope_literal := R.scope_literal
  scope_this h id hid := R.scope_this h id ((R.scope_peers h).entry ▸ hid)
  scope_var h := by
    rcases R.scope_var h with ⟨hd, hc⟩ | ⟨v, v', hd, hc, hv⟩
    · exact .inl ⟨hc, hd⟩
    · exact .inr ⟨v', v, hc, hd, hv⟩
  scope_item := R.scope_item
  scope_object := R.scope_object
  scope_positional := R.scope_positional
  scope_named := R.scope_named
  scope_builtin := R.scope_builtin
  scope_call := R.scope_call
  scope_apply := R.scope_apply
  scope_stored := R.scope_stored

theorem Converges.alone {α : Type} {environment : Environment} {x x' : Nat → EvalM α}
    (hx : ∀ n, x (n + 1) = (x' n).alone) {o : Except Error α} {t' : EvalState}
    (h : Converges environment x' {} o t') (t : EvalState) : Converges environment x t o t := by
  obtain ⟨N, h⟩ := h
  refine .shift ⟨N, fun n hn => ?_⟩
  simp only [hx, EvalM.alone_of_some (h n hn)]

namespace Forum

variable (forum : Forum)

/-- Whenever the right computation finishes, from a truthful state to a truthful one, the left ones
finish the same way, given enough levels and evaluations nested deep enough. -/
def Reads {α β : Type} (w : Meanings) (r : Meanings → α → β → Prop) (x : Nat → EvalM α)
    (y : EvalM β) : Prop :=
  ∀ t s, t.prepared = [] → forum.Truthful w s → ∀ o s', y forum.environment s = some (o, s') →
    ∃ o' t' w', Converges forum.environment x t o' t' ∧ t'.prepared = [] ∧
      forum.Leads w s w' s' ∧ Agree (r w') o' o

variable {forum} {w : Meanings} {α β γ δ : Type} {r : Meanings → α → β → Prop}
  {q : Meanings → γ → δ → Prop}

namespace Reads

theorem of_run {x : EvalM α} {y : EvalM β}
    (h : ∀ t s, t.prepared = [] → forum.Truthful w s → ∃ o' o t' s' w',
      x forum.environment t = some (o', t') ∧ y forum.environment s = some (o, s') ∧
      t'.prepared = [] ∧ forum.Leads w s w' s' ∧ Agree (r w') o' o) :
    forum.Reads w r (fun _ => x) y := by
  intro t s ht hs o s' hy
  obtain ⟨o', o₁, t', s₁, w', hx, hy₁, hrest⟩ := h t s ht hs
  rw [hy₁] at hy
  cases hy
  exact ⟨o', t', w', .of_run hx, hrest⟩

theorem pure {a : α} {b : β} (h : r w a b) :
    forum.Reads w r (fun _ => Pure.pure a) (Pure.pure b) :=
  .of_run fun t s ht hs => ⟨.ok a, .ok b, t, s, w, rfl, rfl, ht, hs.leads, .ok h⟩

theorem bind {x : Nat → EvalM α} {y : EvalM β} {f : Nat → α → EvalM γ} {g : β → EvalM δ}
    (h : forum.Reads w r x y)
    (hf : ∀ w' a b, w.Grows w' → r w' a b → forum.Reads w' q (fun n => f n a) (g b)) :
    forum.Reads w q (fun n => x n >>= f n) (y >>= g) := by
  intro t s ht hs o s'' hrun
  rcases EvalM.bind_eq_some hrun with ⟨e, hy, rfl⟩ | ⟨b, s', hy, hg⟩
  · obtain ⟨o', t', w', hx, ht', hleads, hagree⟩ := h t s ht hs _ _ hy
    cases hagree
    exact ⟨_, t', w', hx.bind_error, ht', hleads, .error e⟩
  · obtain ⟨o', t', w', hx, ht', hleads, hagree⟩ := h t s ht hs _ _ hy
    cases hagree with
    | ok hab =>
      obtain ⟨o'', t'', w'', hx', ht'', hleads', hagree'⟩ :=
        hf w' _ _ hleads.grown hab t' s' ht' hleads.truthful _ _ hg
      exact ⟨o'', t'', w'', hx.bind hx', ht'', hleads.trans hleads', hagree'⟩

theorem execute (query : Query) : forum.Reads w
    (only fun rows => forum.environment.outage .execute = none ∧
      rows = forum.environment.graph.execute query)
    (fun _ => Store.execute query) (Store.execute query) := .of_run fun t s ht hs => by
  refine ⟨_, _, _, _, w, Store.execute_run ht query, Store.execute_run hs.prepared query, ht,
    hs.executed query, ?_⟩
  cases forum.environment.outage .execute with
  | some e => exact .error _
  | none => exact .ok ⟨rfl, rfl, rfl⟩

theorem sortedLater {v v' : Value} {key : Option Lambda} {c d : Context} (descending : Bool)
    (hv : v'.Twin forum.frame w v) (hs : Scope.Twin forum.frame w d c)
    (hkey : ∀ l : Lambda, key = some l → forum.Readable (.lambda l.parameter l.body)) :
    forum.Reads w
      (fun w' g g' => ∀ pageSize, Value.Twin forum.frame w'
        (.iterable g' pageSize none) (.iterable g pageSize none))
      (fun _ => Evaluator.sortedLater v key descending c)
      (Evaluator.sortedLater v' key descending d) := .of_run fun t s ht htruthful => by
  let c' := { c with cache := t.caches.size }
  let g : Generator := .sorted v key descending c' t.buffers.size
  have hcache : forum.Leads w s (w.withCache d.user) s.withCache :=
    .withCache htruthful (hs.peers.user ▸ hs.peers.subject.2.1)
  have hbuffer : forum.Leads _ _ ((w.withCache d.user).withBuffer g) _ :=
    .withBuffer hcache.truthful g
  have hleads := hcache.trans hbuffer
  have howns := (w.owns_last d.user htruthful.owners).mono hbuffer.grown
  refine ⟨.ok g, .ok (.sorted v' key descending { d with cache := s.caches.size } s.buffers.size),
    { t.withCache with buffers := t.buffers.push none },
    { s.withCache with buffers := s.buffers.push none }, _, rfl, rfl, ht, hleads,
    .ok fun pageSize => .iterable ?_ fun _ _ => trivial⟩
  exact .sorted (hv.mono hleads.grown) hkey
    ((hs.mono hleads.grown).withCaches (fun _ => howns) _)
    (Meanings.tells_last _ _ htruthful.buffers)

theorem alone {x x' : Nat → EvalM α} {y : EvalM β} (hx : ∀ n, x (n + 1) = (x' n).alone)
    (h : forum.Reads w r x' y) : forum.Reads w r x y := by
  intro t s ht hs o s' hrun
  obtain ⟨o', t', w', hconverges, -, hrest⟩ := h {} s rfl hs o s' hrun
  exact ⟨o', t, w', hconverges.alone hx t, ht, hrest⟩

end Reads

end Forum

/-- Plain evaluation compared with evaluation that is not refused. -/
def Forum.reading (forum : Forum) : Comparison Nat where
  toRelations := forum.frame.relations.flip
  sized := True
  Holds w r x y := forum.Reads w r x y
  pure h := .pure h
  bind h hf := h.bind hf
  raise {α β w r e} _ := .of_run fun t s ht hs =>
    ⟨.error e, .error e, t, s, w, rfl, rfl, ht, hs.leads, .error e⟩
  read h := h fun _ => forum.environment.outage
  consult {α β w r service f g} _ h := .of_run fun t s ht hs => by
    refine ⟨_, _, t, s, w, Store.consult_run service f, Store.consult_run service g, ht, hs.leads,
      ?_⟩
    cases forum.environment.outage service with
    | some e => exact .error _
    | none => exact .ok h
  answer hx hy _ hr := .of_run fun t s ht hs =>
    ⟨_, _, t, s, _, hx forum.environment.outage t, hy s, ht, hs.leads,
      .of_ok fun a ha => hr a (Store.eq_ok_of_stopped ha)⟩
  execute _ := .execute _
  detached {w e c d} h := .of_run fun t s ht hs => by
    have hleads : forum.Leads w s (w.withCache d.user) s.withCache :=
      .withCache hs (h.2.peers.user ▸ h.2.peers.subject.2.1)
    refine ⟨.ok { c with cache := t.caches.size }, .ok { d with cache := s.caches.size },
      t.withCache, s.withCache, _, rfl, rfl, ht, hleads, .ok ⟨h.1, ?_⟩⟩
    exact (h.2.mono hleads.grown).withCaches (fun _ => w.owns_last _ hs.owners) _
  sortedLater descending hv hs hkey := .sortedLater descending hv hs.2 fun l hl => (hkey l hl).1

namespace Forum

variable {forum : Forum} {w : Meanings} {levels more : Nat}

/-! ### Sorted sequences -/

section

variable {inner inner' : Value} {key : Option Lambda} {descending : Bool} {c d : Context}
  {buffer buffer' pageSize : Nat} {source : Option Source} {offset count : Nat}

variable (h : ∀ more, forum.reading.Respects (fun n => Evaluator.plain (n + more) n)
    (Evaluator.unrefused levels))
  (hinner : inner'.Twin forum.frame w inner)
  (hb : w.Tells buffer' (.sorted inner key descending c buffer))

include h hinner hb

/-- Plain counting finishes in any case, so that only the other side matters. -/
theorem reads_countSorted : forum.Reads w
    (forum.reading.counted (.iterable (.sorted inner key descending c buffer) pageSize source))
    (fun n => (Evaluator.plain (n + more) n).count
      (.iterable (.sorted inner key descending c buffer) pageSize source))
    ((Evaluator.unrefused (levels + 1)).count
      (.iterable (.sorted inner' key descending d buffer') pageSize source)) := by
  intro t s ht hs o s' hrun
  let v : Value := .iterable (.sorted inner key descending c buffer) pageSize source
  let v' : Value := .iterable (.sorted inner' key descending d buffer') pageSize source
  obtain ⟨l, hfinishes⟩ := Evaluator.plain_count_finishes forum.environment v
  have hsame : v.size forum.environment = inner'.size forum.environment :=
    (forum.frame.relations.size_eq hinner).symm
  have hright : ∃ w', forum.Leads w s w' s' ∧ o = v.size forum.environment := by
    cases hitems : (s.buffers[buffer']?).join with
    | some items =>
      have hfilled : (Evaluator.unrefused levels).countStep v' forum.environment s =
          some (.ok items.length, s) := Evaluator.countStep_filled _ hitems
      cases hfilled.symm.trans hrun
      exact ⟨w, hs.leads, (hs.sorts hb hitems).1.symm⟩
    | none =>
      have hempty : (Evaluator.unrefused levels).countStep v' forum.environment s = _ :=
        Evaluator.countStep_empty _ hitems
      obtain ⟨o', t', w', ⟨N, hx⟩, -, hleads, hagree⟩ :=
        (h 0).count hinner trivial {} s rfl hs o s' (hempty.symm.trans hrun)
      obtain rfl := hagree.eq fun _ _ hab => hab.1
      have hcount : o' = inner.size forum.environment :=
        Evaluator.plain_count_eq (hx N (Nat.le_refl N))
      exact ⟨w', hleads, hcount⟩
  obtain ⟨w', hleads, rfl⟩ := hright
  exact ⟨_, t, w', ⟨l, fun n hn => hfinishes hn⟩, ht, hleads,
    .of_ok fun n hn => ⟨rfl, fun _ => hn⟩⟩

variable (hkey : ∀ l : Lambda, key = some l → forum.Readable (.lambda l.parameter l.body))
  (hs : Scope.Twin forum.frame w d c)

include hkey hs

theorem reads_sortedItems (more : Nat) {s s' : EvalState} (htruthful : forum.Truthful w s)
    {o : Except Error (List Concrete)} (hrun : (Evaluator.unrefused levels).sortedItems inner' key
      descending d buffer' forum.environment s = some (o, s')) :
    ∃ t w', Converges forum.environment
        (fun n => (Evaluator.plain (n + more) n).sortAll inner key descending c) {} o t ∧
      forum.Leads w s w' s' ∧
      ∀ items, o = .ok items → forum.Sorts inner key descending c items := by
  cases hitems : (s.buffers[buffer']?).join with
  | some items =>
    cases ((Evaluator.unrefused levels).sortedItems_filled hitems).symm.trans hrun
    have hsorts := htruthful.sorts hb hitems
    obtain ⟨-, -, nesting, levels', t, hplain⟩ := hsorts
    refine ⟨t, w, ⟨max nesting levels', fun n hn => ?_⟩, htruthful.leads, ?_⟩
    · exact (Evaluator.stable_sortAll inner key descending c).plain_mono (by omega) (by omega) rfl
        hplain
    · rintro _ ⟨⟩
      exact htruthful.sorts hb hitems
  | none =>
    rw [Evaluator.sortedItems_empty _ hitems] at hrun
    obtain ⟨⟨p, s₁⟩, hsort, heq⟩ := Option.map_eq_some_iff.mp hrun
    cases heq
    obtain ⟨o', t, w', hx, -, hleads, hagree⟩ := (h more).toPulls.sortAll (h more).toApplies hinner
      trivial (fun l hl => ⟨hkey l hl, hs⟩) descending {} s rfl htruthful p s₁ hsort
    have hsorts : ∀ items, o' = .ok items → forum.Sorts inner key descending c items := by
      rintro items rfl
      cases hagree with
      | ok hab =>
        obtain ⟨rfl, hwithin, hsize⟩ := hab
        obtain ⟨N, hx⟩ := hx
        exact ⟨hsize trivial, hwithin, N + more, N, t, hx N (Nat.le_refl N)⟩
    obtain rfl := hagree.eq fun _ _ hab => hab.1
    refine ⟨t, w', hx, ⟨hleads.grown, hleads.truthful.fill (hb.mono hleads.grown) hsorts,
      hleads.owners, ?_, ?_⟩, hsorts⟩
    · rw [EvalState.fill_depth, hleads.depth]
    · rw [EvalState.fill_inProgress, hleads.inProgress]

theorem reads_sliceSorted : forum.Reads w
    (forum.reading.sliced (.iterable (.sorted inner key descending c buffer) pageSize source)
      offset count)
    (fun n => (Evaluator.plain (n + more) n).slice
      (.iterable (.sorted inner key descending c buffer) pageSize source) offset count)
    ((Evaluator.unrefused (levels + 1)).slice
      (.iterable (.sorted inner' key descending d buffer') pageSize source) offset count) := by
  intro t s ht htruthful o s' hrun
  let taken (items : List Concrete) : EvalM (List Concrete) := return (items.drop offset).take count
  have hslice (n : Nat) : (Evaluator.plain (n + 1 + more) (n + 1)).slice
      (.iterable (.sorted inner key descending c buffer) pageSize source) offset count =
      ((Evaluator.plain (n + (more + 1)) n).sortAll inner key descending c >>= taken).alone := by
    rw [Nat.succ_add_eq_add_succ, Evaluator.plain_slice_sorted]
  rcases EvalM.bind_eq_some hrun with ⟨e, hitems, rfl⟩ | ⟨items, s₁, hitems, htaken⟩
  · obtain ⟨t₁, w', hx, hleads, -⟩ :=
      reads_sortedItems h hinner hb hkey hs (more + 1) htruthful hitems
    exact ⟨_, t, w', (hx.bind_error (f := fun _ => taken)).alone hslice t, ht, hleads, .error e⟩
  · cases htaken
    obtain ⟨t₁, w', hx, hleads, hsorts⟩ :=
      reads_sortedItems h hinner hb hkey hs (more + 1) htruthful hitems
    obtain ⟨hsize, hwithin, -⟩ := hsorts items rfl
    refine ⟨_, t, w', (hx.bind (f := fun _ => taken) (.of_run rfl)).alone hslice t, ht, hleads,
      .ok ⟨rfl, fun x hx => ?_, fun _ _ => ⟨items.length, hsize, by simp⟩⟩⟩
    exact hwithin x (List.mem_of_mem_drop (List.mem_of_mem_take hx))

end

theorem reads_pulls (h : ∀ more, forum.reading.Respects (fun n => Evaluator.plain (n + more) n)
      (Evaluator.unrefused levels)) (more : Nat) :
    forum.reading.Pulls (fun n => Evaluator.plain (n + more) n)
      (Evaluator.unrefused (levels + 1)) fun _ => True where
  count {w v v'} hv _ := by
    by_cases hsorted : v.IsSorted
    · obtain ⟨inner', inner, key, descending, d, c, buffer', buffer, pageSize, source, rfl, rfl,
        hinner, -, -, hb⟩ := hv.sorted_of (hv.isSorted hsorted)
      exact reads_countSorted h hinner hb
    · refine .alone (fun n => ?_) ((h (more + 1)).toPulls.countStep hv (fun _ _ => trivial) hsorted)
      rw [Nat.succ_add_eq_add_succ]
      rfl
  slice {w v v'} hv _ offset count := by
    by_cases hsorted : v.IsSorted
    · obtain ⟨inner', inner, key, descending, d, c, buffer', buffer, pageSize, source, rfl, rfl,
        hinner, hkey, hs, hb⟩ := hv.sorted_of (hv.isSorted hsorted)
      exact reads_sliceSorted h hinner hb hkey hs
    · refine .alone (fun n => ?_) ((h (more + 1)).toPulls.sliceStep (h (more + 1)).toApplies hv
        (fun _ _ => trivial) hsorted offset count)
      rw [Nat.succ_add_eq_add_succ]
      rfl
  collectFrom {w v v' chunkSize pulled} hv _ hc hpulled := by
    refine .alone (fun n => ?_) ((h (more + 1)).toPulls.collectStep hv trivial hc hpulled)
    rw [Nat.succ_add_eq_add_succ]
    rfl

/-! ### Evaluations -/

theorem Reads.widen {user : Option UserId} (huser : forum.users user) {x : Nat → EvalM Value}
    {y : EvalM Value} (h : (forum.sole user).Reads w (forum.sole user).reading.value x y) :
    forum.Reads w forum.reading.value x y := by
  have hmore : ∀ other, other = user → forum.users other := by
    rintro _ rfl
    exact huser
  intro t s ht htruthful o s' hrun
  obtain ⟨o', t', w', hx, ht', hleads, hagree⟩ := h t s ht (htruthful.sole user) o s' hrun
  refine ⟨o', t', w', hx, ht', hleads.widen hmore, hagree.mono fun _ _ hab => ?_⟩
  exact Value.Twin.widen (widens hmore) hab

section

variable {c d : Context} {e : Expr} (hreadable : forum.Readable e)
  (hs : Scope.Twin forum.frame w d c)
  (h : ∀ more, forum.reading.Respects (fun n => Evaluator.plain (n + more) n)
    (Evaluator.unrefused levels)) {s s' : EvalState} (htruthful : forum.Truthful w s)
  {o : Except Error Value}
  (hrun : (Evaluator.unrefused (levels + 1)).evaluate d e forum.environment s = some (o, s'))
  (t : EvalState)

include hreadable hs h htruthful hrun

/-- The evaluation of an expression that is not cached is that of its node. A result with a name
may be cached as long as nobody else is there. -/
theorem reads_fresh (hsole : ∀ key ∈ d.cacheKey? e, ∀ user, forum.users user → user = d.user)
    (hcached : (d.cacheKey? e).bind (s.cached? d.cache) = none) :
    ∃ o' w', Converges forum.environment (fun n => (Evaluator.plain (n + more) n).evaluate c e) t
        o' t ∧ forum.Leads w s w' s' ∧ Agree (forum.reading.value w') o' o := by
  obtain ⟨entered, henter⟩ :
      ∃ entered, s.enter forum.environment.config e (d.cacheKey? e) = .ok entered := by
    cases henter : s.enter forum.environment.config e (d.cacheKey? e) with
    | ok entered => exact ⟨entered, rfl⟩
    | error error =>
      have hrefused : (Evaluator.unrefused levels).evaluateUnrefused d e forum.environment s =
          none := by
        rw [Evaluator.evaluateUnrefused_run, hcached, henter]
        rfl
      cases hrefused.symm.trans hrun
  have hstep := (Evaluator.evaluateUnrefused_entered hcached henter).symm.trans hrun
  obtain ⟨⟨p, s₁⟩, hnode, heq⟩ := Option.map_eq_some_iff.mp hstep
  cases heq
  obtain ⟨-, -, rfl⟩ := EvalState.enter_eq_ok henter
  have hscope : Scope.Twin forum.frame w d { c with cache := 0 } := hs.withCaches hs.owns 0
  obtain ⟨p', t', w', ⟨N, hx⟩, -, hleads, hagree⟩ :=
    (h more).evaluateNode (w := w) ⟨hreadable, hscope⟩ {} _ rfl (htruthful.enter _ _) p s₁ hnode
  have hs' := hs.mono hleads.grown
  have hsettled : Agree (Value.Twin forum.frame w') (Evaluator.settled d e p)
      (Evaluator.settled c e p') := agree_settled hs' hagree.flip
  have hnames := names_settled hreadable hs' hsole (hx N (Nat.le_refl N)) hsettled
  refine ⟨_, w', .shift ⟨N, fun n hn => ?_⟩, hleads.finish hnames, hsettled.flip⟩
  have hplain := Evaluator.plain_evaluate_of_node (s := t) (hx n hn)
  rwa [Nat.add_right_comm] at hplain

theorem reads_named (hsole : ∀ user, forum.users user → user = d.user) {key : String}
    (hkey : d.cacheKey? e = some key) :
    ∃ o' w', Converges forum.environment (fun n => (Evaluator.plain (n + more) n).evaluate c e) t
        o' t ∧ forum.Leads w s w' s' ∧ Agree (forum.reading.value w') o' o := by
  cases hcached : s.cached? d.cache key with
  | none =>
    refine reads_fresh hreadable hs h htruthful hrun t (fun _ _ => hsole) ?_
    rw [hkey]
    exact hcached
  | some v =>
    have hfound : (d.cacheKey? e).bind (s.cached? d.cache) = some v := by
      rw [hkey]
      exact hcached
    cases (Evaluator.evaluateUnrefused_cached hfound).symm.trans hrun
    obtain ⟨-, hkeyed, hbase⟩ := keyed_of_cacheKey? hreadable hs hkey
    obtain ⟨owner, howner, entry, e', u, hkeyed', ⟨nesting, levels', hgives⟩, hvu⟩ :=
      htruthful.caches _ _ _ hcached
    obtain rfl : d.user = owner := Option.some.inj ((hs.owns trivial).symm.trans howner)
    obtain ⟨rfl, rfl⟩ := hkeyed'.unique hkeyed
    have huser : forum.users d.user := hs.peers.user ▸ hs.peers.subject.2.1
    have hwidens : Frame.Widens (forum.sole d.user).frame forum.frame := by
      apply widens
      rintro _ rfl
      exact huser
    rw [hbase, Evaluator.plain_evaluate_cache] at hgives
    refine ⟨.ok u, w, ⟨max nesting levels', fun n hn => ?_⟩, htruthful.leads,
      .ok (hvu.widen hwidens)⟩
    have hmore := Evaluator.plain_evaluate_mono (by omega : nesting ≤ n + more)
      (by omega : levels' ≤ n) hgives
    exact Evaluator.plain_evaluate_alone hmore t

end

theorem reads_evaluate (ih : ∀ (forum : Forum) more, forum.reading.Respects
      (fun n => Evaluator.plain (n + more) n) (Evaluator.unrefused levels))
    {c d : Context} {e : Expr}
    (hs : forum.reading.scope w e c d) :
    forum.Reads w forum.reading.value (fun n => (Evaluator.plain (n + more) n).evaluate c e)
      ((Evaluator.unrefused (levels + 1)).evaluate d e) := by
  obtain ⟨hreadable, htwin⟩ := hs
  cases hkey : d.cacheKey? e with
  | none =>
    intro t s ht htruthful o s' hrun
    obtain ⟨o', w', hx, hrest⟩ := reads_fresh hreadable htwin (ih forum) htruthful hrun t
      (by simp [hkey]) (by rw [hkey]; rfl)
    exact ⟨o', t, w', hx, ht, hrest⟩
  | some key =>
    obtain ⟨hempty, -, -⟩ := keyed_of_cacheKey? hreadable htwin hkey
    have huser : forum.users d.user := htwin.peers.user ▸ htwin.peers.subject.2.1
    have hsole : (forum.sole d.user).Readable e := hreadable
    refine .widen huser fun t s ht htruthful o s' hrun => ?_
    obtain ⟨o', w', hx, hrest⟩ := reads_named hsole (twin_sole htwin hempty) (ih _) htruthful
      hrun t (fun _ h => h) hkey
    exact ⟨o', t, w', hx, ht, hrest⟩

/-- Everything that is given without being refused plain evaluation gives. -/
theorem reads_unrefused (levels : Nat) : ∀ (forum : Forum) more, forum.reading.Respects
    (fun n => Evaluator.plain (n + more) n) (Evaluator.unrefused levels) := by
  induction levels with
  | zero =>
    intro forum more
    have hnever {α β : Type} {w : Meanings} {r : Meanings → α → β → Prop} {x : Nat → EvalM α} :
        forum.Reads w r x EvalM.exhausted := by
      intro t s _ _ o s' hrun
      cases hrun
    exact { apply := fun _ _ => hnever, count := fun _ _ => hnever, slice := fun _ _ _ _ => hnever,
            collectFrom := fun _ _ _ _ => hnever, evaluate := fun _ => hnever }
  | succ levels ih =>
    intro forum more
    refine { toPulls := reads_pulls (ih forum) more, evaluate := fun hs => reads_evaluate ih hs,
             apply := fun hs hx => ?_ }
    refine .alone (fun n => ?_) ((ih forum (more + 1)).applyStep hs hx)
    rw [Nat.succ_add_eq_add_succ]
    rfl

end Forum

end GraphExpr
