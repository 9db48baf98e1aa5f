import GraphExpr.Proofs.Eval.Runs
import GraphExpr.Proofs.Eval.Scalars

/-! # Related drawings

What is drawn of a graph only asks the store, which gives equal answers in related scopes.
-/

namespace GraphExpr

theorem Store.consult_withOutage {α : Type} {environment : Environment}
    {outage : Service → Option StoreError} {s : EvalState} (service : Service)
    (answer : Environment → α) : consult service answer (environment.withOutage outage) s =
      some (stopped [service] outage (.ok (answer (environment.withOutage outage))), s) := by
  cases hoff : outage service <;> simp [consult_run, stopped, hoff]

/-- The computation does not depend on the state and leaves it as it was; its result satisfies a
condition, and its own errors are those of expressions. Services out of reach only stop it at the
first one that it calls. -/
def EvalM.Settled {α : Type} (environment : Environment) (p : α → Prop) (x : EvalM α) : Prop :=
  ∃ (calls : List Service) (o : Except Error α),
    (∀ outage s,
      x (environment.withOutage outage) s = some (Store.stopped calls outage o, s)) ∧
    (∀ e, o = .error e → e.isRecoverable = true) ∧ ∀ a, o = .ok a → p a

namespace EvalM

variable {α β : Type} {environment : Environment} {p : α → Prop} {q : β → Prop}

theorem settled_pure {a : α} (h : p a) : Settled environment p (Pure.pure a) :=
  ⟨[], .ok a, fun _ _ => rfl, by simp, by simpa using h⟩

theorem settled_throw {e : Error} (he : e.isRecoverable = true) :
    Settled environment p (throw e) :=
  ⟨[], .error e, fun _ _ => rfl, by simpa using he, by simp⟩

theorem settled_fail (e : EvalError) : Settled environment p (fail e) :=
  settled_throw rfl

theorem settled_consult (service : Service) {answer : Environment → α}
    (h : ∀ outage, answer (environment.withOutage outage) = answer environment)
    (hp : p (answer environment)) : Settled environment p (Store.consult service answer) := by
  refine ⟨[service], .ok (answer environment), fun outage s => ?_, by simp, by simpa using hp⟩
  rw [Store.consult_withOutage, h]

theorem Settled.handle {x : EvalM α} {f : Except Error α → EvalM β}
    (hx : Settled environment p x)
    (hstore : ∀ error, f (.error (.store error)) = throw (.store error))
    (hf : ∀ o, (∀ e, o = .error e → e.isRecoverable = true) → (∀ a, o = .ok a → p a) →
      Settled environment q (f o)) : Settled environment q (outcome x >>= f) := by
  obtain ⟨calls, o, ho, herror, hp⟩ := hx
  obtain ⟨calls', o', ho', herror', hq⟩ := hf o herror hp
  refine ⟨calls ++ calls', o', fun outage s => ?_, herror', hq⟩
  rw [bind_of_ok (outcome_of_some (ho outage s)), Store.stopped_append]
  cases hstop : calls.findSome? outage with
  | some error =>
    rw [Store.stopped_of_some hstop, Store.stopped_of_some hstop, hstore]
    rfl
  | none => rw [Store.stopped_of_none hstop, Store.stopped_of_none hstop, ho']

theorem bind_eq_outcome_bind (x : EvalM α) (f : α → EvalM β) :
    x >>= f = outcome x >>= fun o =>
      match o with
      | .ok a => f a
      | .error e => throw e := by
  funext environment s
  cases hrun : x environment s with
  | none => rw [bind_of_none hrun, bind_of_none (outcome_of_none hrun)]
  | some r =>
    obtain ⟨e | a, s'⟩ := r
    · rw [bind_of_error hrun, bind_of_ok (outcome_of_some hrun)]
      rfl
    · rw [bind_of_ok hrun, bind_of_ok (outcome_of_some hrun)]

theorem Settled.bind {x : EvalM α} {f : α → EvalM β} (hx : Settled environment p x)
    (hf : ∀ a, p a → Settled environment q (f a)) : Settled environment q (x >>= f) := by
  rw [bind_eq_outcome_bind]
  refine hx.handle (fun _ => rfl) fun o herror hp => ?_
  cases o with
  | ok a => exact hf a (hp a rfl)
  | error e => exact settled_throw (herror e rfl)

theorem settled_found (sort name : String) (value : Option α) :
    Settled environment (fun _ => True) (Store.found sort name value) := by
  cases value with
  | none => exact settled_fail _
  | some a => exact settled_pure trivial

theorem settled_canView (c : Context) (id : EntryId) :
    Settled environment
      (fun visible => visible = true →
        environment.graph.hasPermission c.subject .viewEntry (.entry id) = true)
      (Store.canView c id) :=
  settled_consult _ (fun _ => rfl) fun hvisible => (Bool.and_eq_true_iff.mp hvisible).2

theorem settled_visibleEntry (c : Context) (id : String) :
    Settled environment
      (fun record => environment.graph.hasPermission c.subject .viewEntry (.entry record.id) = true)
      (Store.visibleEntry c id) := by
  unfold Store.visibleEntry
  refine (settled_consult (p := fun _ => True) _ (fun _ => rfl) trivial).bind fun found _ => ?_
  refine (settled_found _ _ _).bind fun record _ => ?_
  refine (settled_canView c record.id).bind fun visible hvisible => ?_
  split
  next htrue => exact settled_pure (hvisible htrue)
  next => exact settled_fail _

theorem settled_node? (c : Context) (id : EntryId) :
    Settled environment
      (fun node => ∀ n ∈ node,
        environment.graph.hasPermission c.subject .viewEntry (.entry n.id) = true)
      (Evaluator.node? c id) := by
  refine (settled_visibleEntry c id.text).handle (fun _ => rfl) fun o herror hvisible => ?_
  cases o with
  | ok record =>
    apply settled_pure
    rintro _ ⟨⟩
    exact hvisible record rfl
  | error e =>
    cases e with
    | expression error => exact settled_pure (by simp)
    | store error => exact settled_throw (herror _ rfl)
    | config message => exact settled_throw (herror _ rfl)
    | internal message => exact settled_throw (herror _ rfl)

/-! ### Another graph -/

theorem bind_eq_of_eq {environment' : Environment} {x : EvalM α} {f : α → EvalM β}
    (hx : x environment = x environment') (hf : ∀ a, f a environment = f a environment') :
    (x >>= f) environment = (x >>= f) environment' := by
  funext s
  cases hrun : x environment s with
  | none => rw [bind_of_none hrun, bind_of_none (hx ▸ hrun)]
  | some r =>
    obtain ⟨e | a, s'⟩ := r
    · rw [bind_of_error hrun, bind_of_error (hx ▸ hrun)]
    · rw [bind_of_ok hrun, bind_of_ok (hx ▸ hrun), hf]

section

variable {graph : Graph}

theorem consult_withGraph (service : Service) {answer : Environment → α}
    (h : answer environment = answer (environment.withGraph graph)) :
    Store.consult service answer environment =
      Store.consult service answer (environment.withGraph graph) := by
  funext s
  rw [Store.consult_run, Store.consult_run, Environment.withGraph_outage, h]

variable {c : Context} (h : environment.graph.Concurs graph c.subject)

include h

theorem canView_withGraph (id : EntryId) :
    Store.canView c id environment = Store.canView c id (environment.withGraph graph) := by
  apply consult_withGraph
  rw [h.permission]
  rfl

theorem visibleEntry_withGraph (id : String) :
    Store.visibleEntry c id environment =
      Store.visibleEntry c id (environment.withGraph graph) := by
  unfold Store.visibleEntry
  apply bind_eq_of_eq (consult_withGraph _ (congrFun h.entry id))
  intro found
  apply bind_eq_of_eq (by cases found <;> rfl)
  intro record
  apply bind_eq_of_eq (canView_withGraph h record.id)
  intro visible
  split <;> rfl

theorem node?_withGraph (id : EntryId) :
    Evaluator.node? c id environment = Evaluator.node? c id (environment.withGraph graph) := by
  unfold Evaluator.node?
  apply bind_eq_of_eq
  · unfold outcome
    rw [visibleEntry_withGraph h id.text]
  · intro o
    split <;> rfl

end

end EvalM

namespace Drawing

structure Sketch.Within (p : EntryId → Prop) (sketch : Sketch) : Prop where
  edges : ∀ edge ∈ sketch.edges, p edge.source ∧ p edge.target
  crossings : ∀ crossing ∈ sketch.crossings, p crossing.1.entry

variable {environment : Environment} {c : Context} {nodes : List Node} {p : EntryId → Prop}

theorem isDrawn_iff {id : EntryId} : isDrawn nodes id = true ↔ ∃ node ∈ nodes, node.id = id := by
  simp [isDrawn]

theorem Sketch.Within.cross {sketch : Sketch} (h : sketch.Within p) {entry : EntryId}
    (hentry : p entry) (property : PropertyId) : (sketch.cross entry property).Within p where
  edges := h.edges
  crossings crossing hcrossing := by
    rcases Dict.mem_insert hcrossing with rfl | hold
    · exact hentry
    · exact h.crossings crossing hold

theorem settled_add (hnodes : ∀ node ∈ nodes, p node.id) {sketch : Sketch} (h : sketch.Within p)
    (relationship : RelationshipRecord) :
    (sketch.add nodes c relationship).Settled environment (Sketch.Within p) := by
  have hdrawn {id : EntryId} (hid : isDrawn nodes id = true) : p id := by
    obtain ⟨node, hnode, rfl⟩ := isDrawn_iff.mp hid
    exact hnodes node hnode
  have hcross {id : EntryId} (hid : isDrawn nodes id = true) (property : PropertyId)
      (visible : Bool) : (if visible then sketch.cross id property else sketch).Within p := by
    split
    · exact h.cross (hdrawn hid) property
    · exact h
  obtain ⟨_, property, source, target⟩ := relationship
  unfold Sketch.add
  dsimp only
  split
  next hsource htarget =>
    refine EvalM.settled_pure ⟨fun edge hedge => ?_, h.crossings⟩
    rcases List.mem_append.mp hedge with hold | hnew
    · exact h.edges edge hold
    · rw [List.mem_singleton.mp hnew]
      exact ⟨hdrawn hsource, hdrawn htarget⟩
  next hsource _ =>
    exact (EvalM.settled_canView c target).bind fun visible _ =>
      EvalM.settled_pure (hcross hsource property visible)
  next _ htarget =>
    exact (EvalM.settled_canView c source).bind fun visible _ =>
      EvalM.settled_pure (hcross htarget property visible)
  next => exact EvalM.settled_pure h

theorem settled_addAll (hnodes : ∀ node ∈ nodes, p node.id)
    (relationships : List RelationshipRecord) {sketch : Sketch} (h : sketch.Within p) :
    (relationships.foldlM (Sketch.add nodes c) sketch).Settled environment (Sketch.Within p) := by
  induction relationships generalizing sketch with
  | nil => exact EvalM.settled_pure h
  | cons relationship relationships ih =>
    rw [List.foldlM_cons]
    exact (settled_add hnodes h relationship).bind fun next hnext => ih hnext

theorem settled_sketch (hnodes : ∀ node ∈ nodes, p node.id) :
    (sketch nodes c).Settled environment (Sketch.Within p) := by
  refine EvalM.Settled.bind (p := fun _ => True)
    (EvalM.settled_consult _ (fun _ => rfl) trivial) fun relationships _ => ?_
  exact settled_addAll hnodes relationships ⟨by simp, by simp⟩

/-! ### Another graph -/

section

variable {graph : Graph} (h : environment.graph.Concurs graph c.subject)

include h

theorem add_withGraph (sketch : Sketch) (relationship : RelationshipRecord) :
    sketch.add nodes c relationship environment =
      sketch.add nodes c relationship (environment.withGraph graph) := by
  unfold Sketch.add
  dsimp only
  have hborder {id : EntryId} {f : Bool → EvalM Sketch}
      (hf : ∀ visible, f visible environment = f visible (environment.withGraph graph)) :
      (Store.canView c id >>= f) environment =
        (Store.canView c id >>= f) (environment.withGraph graph) :=
    EvalM.bind_eq_of_eq (EvalM.canView_withGraph h id) hf
  cases isDrawn nodes relationship.source with
  | false =>
    cases isDrawn nodes relationship.target with
    | false => rfl
    | true => exact hborder fun _ => rfl
  | true =>
    cases isDrawn nodes relationship.target with
    | false => exact hborder fun _ => rfl
    | true => rfl

theorem sketch_withGraph (hrelationships : environment.graph.relationships c.site =
    graph.relationships c.site) :
    sketch nodes c environment = sketch nodes c (environment.withGraph graph) := by
  unfold sketch
  apply EvalM.bind_eq_of_eq
  · exact EvalM.consult_withGraph _ (congrFun hrelationships _)
  intro relationships
  generalize ({} : Sketch) = drawn
  induction relationships generalizing drawn with
  | nil => rfl
  | cons relationship relationships ih =>
    rw [List.foldlM_cons]
    exact EvalM.bind_eq_of_eq (add_withGraph h drawn relationship) ih

end

/-! ### Where permissions can be asked for -/

def canView (environment : Environment) (c : Context) (id : EntryId) : Bool :=
  !environment.denied .viewEntry &&
    environment.graph.hasPermission c.subject .viewEntry (.entry id)

/-- The sketch with one more relationship, given which entries may be viewed. -/
def Sketch.draw (nodes : List Node) (visible : EntryId → Bool) (sketch : Sketch)
    (relationship : RelationshipRecord) : Sketch :=
  match isDrawn nodes relationship.source, isDrawn nodes relationship.target with
  | true, true => { sketch with
      edges := sketch.edges ++
        [⟨relationship.source, relationship.target, relationship.property⟩] }
  | true, false =>
    if visible relationship.target then sketch.cross relationship.source relationship.property
    else sketch
  | false, true =>
    if visible relationship.source then sketch.cross relationship.target relationship.property
    else sketch
  | false, false => sketch

theorem canView_run (hreach : environment.outage .hasPermission = none) (id : EntryId)
    (s : EvalState) :
    Store.canView c id environment s = some (.ok (canView environment c id), s) := by
  rw [Store.canView, Store.hasPermission, Store.consult_run, hreach]
  rfl

theorem add_run (hreach : environment.outage .hasPermission = none) (sketch : Sketch)
    (relationship : RelationshipRecord) (s : EvalState) :
    sketch.add nodes c relationship environment s =
      some (.ok (sketch.draw nodes (canView environment c) relationship), s) := by
  unfold Sketch.add Sketch.draw
  dsimp only
  cases isDrawn nodes relationship.source with
  | false =>
    cases isDrawn nodes relationship.target with
    | false => rfl
    | true => exact EvalM.bind_of_ok (canView_run hreach _ s)
  | true =>
    cases isDrawn nodes relationship.target with
    | false => exact EvalM.bind_of_ok (canView_run hreach _ s)
    | true => rfl

theorem addAll_run (hreach : environment.outage .hasPermission = none)
    (relationships : List RelationshipRecord) (sketch : Sketch) (s : EvalState) :
    relationships.foldlM (Sketch.add nodes c) sketch environment s =
      some (.ok (relationships.foldl (Sketch.draw nodes (canView environment c)) sketch), s) := by
  induction relationships generalizing sketch with
  | nil => rfl
  | cons relationship relationships ih =>
    rw [List.foldlM_cons, EvalM.bind_of_ok (add_run hreach sketch relationship s), ih,
      List.foldl_cons]

theorem sketch_run (hreach : environment.outage .hasPermission = none) (s : EvalState) :
    sketch nodes c environment s = some ((match environment.outage .relationships with
      | some e => .error (.store e)
      | none => .ok ((environment.graph.relationships c.site (nodes.map Node.id)).foldl
          (Sketch.draw nodes (canView environment c)) {})), s) := by
  have hrun : Store.relationships c (nodes.map Node.id) environment s = _ :=
    Store.consult_run .relationships _
  unfold sketch
  cases houtage : environment.outage .relationships with
  | some e =>
    rw [houtage] at hrun
    exact EvalM.bind_of_error hrun
  | none =>
    rw [houtage] at hrun
    exact (EvalM.bind_of_ok hrun).trans (addAll_run hreach _ _ s)

end Drawing

namespace Comparison

variable {ι : Type} {C : Comparison ι} {w : C.World} {c d : Context} {call : Call}
  {keys : List String}

theorem holds_settled {α : Type} {p : α → Prop} {x y : EvalM α} (hx : x.Settled C.environment p)
    (hxy : x C.environment = y C.other) : C.Holds w (only p) (fun _ => x) y := by
  obtain ⟨calls, o, ho, herror, hp⟩ := hx
  refine C.answer ho (fun s => ?_) herror fun a ha => ⟨rfl, hp a ha⟩
  rw [← hxy]
  exact ho C.environment.outage s

theorem holds_node? (h : C.Peers c d) (id : EntryId) :
    C.Holds w (only fun node => ∀ n ∈ node, C.entry n.id) (fun _ => Evaluator.node? c id)
      (Evaluator.node? d id) := by
  have hsame : Evaluator.node? c id = Evaluator.node? d id := by
    unfold Evaluator.node?
    rw [h.visibleEntry_eq, h.entry]
  rw [hsame]
  have hother := EvalM.node?_withGraph (c := d) (C.concurs h.subject) id
  refine weaken (holds_settled (EvalM.settled_node? d id) hother) ?_
  rintro w' node _ _ ⟨rfl, hvisible⟩
  exact ⟨rfl, fun n hn => C.view h.subject (hvisible n hn)⟩

theorem holds_drawNodes (h : C.Peers c d) (e : Expr) (items : List Concrete)
    {nodes : List Drawing.Node} (hnodes : ∀ n ∈ nodes, C.entry n.id) :
    C.Holds w (only fun nodes => ∀ n ∈ nodes, C.entry n.id)
      (fun _ => Evaluator.drawNodes e c nodes items) (Evaluator.drawNodes e d nodes items) := by
  induction items generalizing w nodes with
  | nil => exact C.pure ⟨rfl, hnodes⟩
  | cons item items ih =>
    unfold Evaluator.drawNodes
    split
    next => exact ih hnodes
    next id _ =>
      split
      · exact ih hnodes
      · refine next (holds_node? h id) fun w' node _ hnode => ih fun n hn => ?_
        rcases List.mem_append.mp hn with hold | hnew
        · exact hnodes n hold
        · exact hnode n (Option.mem_toList.mp hnew)
    next => exact holds_refuse _ _

theorem holds_sketch (hdraw : C.builtin .graph) (h : C.Peers c d) {nodes : List Drawing.Node}
    (hnodes : ∀ n ∈ nodes, C.entry n.id) :
    C.Holds w (only (Drawing.Sketch.Within C.entry)) (fun _ => Drawing.sketch nodes c)
      (Drawing.sketch nodes d) := by
  have hsame : Drawing.sketch nodes c = Drawing.sketch nodes d := by
    have hadd : Drawing.Sketch.add nodes c = Drawing.Sketch.add nodes d := by
      funext sketch relationship
      unfold Drawing.Sketch.add
      simp only [h.canView_eq]
    unfold Drawing.sketch
    rw [h.relationships_eq, hadd]
  rw [hsame]
  exact holds_settled (Drawing.settled_sketch hnodes) (C.sketch hdraw h.subject hnodes)

theorem Respects.draw {E : ι → Evaluator} {F : Evaluator} (h : C.Respects E F)
    (hdraw : C.builtin .graph) (hs : C.scope w call.expr c d) (hgiven : C.Supplies call keys) :
    C.Holds w C.value (fun i => (E i).draw call c) (F.draw call d) := by
  have hpeers := C.scope_peers hs
  have hdrawn (w' : C.World) (nodes : List Drawing.Node) (hnodes : ∀ n ∈ nodes, C.entry n.id) :
      C.Holds w' C.value
        (fun _ => do
          let sketch ← Drawing.sketch nodes c
          return .concrete <| .graph
            ⟨nodes, sketch.edges, sketch.crossings.map fun entry =>
              ⟨entry.1.entry, entry.1.property, entry.2⟩⟩)
        (do
          let sketch ← Drawing.sketch nodes d
          return .concrete <| .graph
            ⟨nodes, sketch.edges, sketch.crossings.map fun entry =>
              ⟨entry.1.entry, entry.1.property, entry.2⟩⟩) := by
    refine next (holds_sketch hdraw hpeers hnodes) ?_
    intro w'' sketch _ hsketch
    refine C.pure (C.value_concrete (a := .graph _) ⟨hnodes, hsketch.edges, fun border hb => ?_⟩)
    obtain ⟨crossing, hcrossing, rfl⟩ := List.mem_map.mp hb
    exact hsketch.crossings crossing hcrossing
  unfold Evaluator.draw
  refine withArgument hs hgiven fun w₁ e _ he => C.bind (h.evaluateIterable he) ?_
  intro w₂ a b hw₂ hab
  refine C.read fun outage => ?_
  simp only [Environment.withOutage_config]
  refine next (h.slice hab trivial _ _) ?_
  intro w₃ items _ _
  refine next (holds_drawNodes hpeers e items (by simp)) ?_
  intro w₄ nodes _ hnodes
  have hsketch := hdrawn w₄ nodes hnodes
  unfold Drawing.sketch at hsketch
  simpa only [bind_assoc] using hsketch

end Comparison

end GraphExpr
