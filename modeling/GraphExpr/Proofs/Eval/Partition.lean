import Mathlib.Algebra.Ring.Nat
import Mathlib.Data.List.Induction
import Mathlib.Data.List.Nodup
import GraphExpr.Proofs.Eval.Drawings
import GraphExpr.Proofs.Graph.Accepted

/-! # What is drawn of a graph

The nodes are the viewable entries that the items denote, in the order in which they are first
denoted. A relationship with an end among them is drawn if both its ends are, it is counted at the
border if the other end may be viewed, and it is hidden if that may not.

An item that names an entry by its key is not compared with the entries drawn already, only with
their identifiers. So an entry is drawn again for each such item behind its first one.
-/

namespace GraphExpr

/-! ### Tallies -/

namespace Dict

variable {κ : Type} [Ord κ]

def increment (d : Dict κ Nat) (key : κ) : Dict κ Nat :=
  d.insert key ((d.find? key).getD 0 + 1)

def tally (keys : List κ) : Dict κ Nat :=
  keys.foldl increment []

variable [Std.TransOrd κ] [Std.LawfulEqOrd κ] {d : Dict κ Nat}

theorem sorted_foldl_increment (h : d.Sorted) (keys : List κ) :
    (keys.foldl increment d).Sorted := by
  induction keys generalizing d with
  | nil => exact h
  | cons key rest ih => exact ih (h.insert key _)

theorem sorted_tally (keys : List κ) : (tally keys).Sorted :=
  sorted_foldl_increment List.Pairwise.nil keys

theorem find?_foldl_increment [DecidableEq κ] (keys : List κ) (key : κ) :
    (keys.foldl increment d).find? key =
      if keys.count key = 0 then d.find? key
      else some ((d.find? key).getD 0 + keys.count key) := by
  induction keys generalizing d with
  | nil => rfl
  | cons first rest ih =>
    rw [List.foldl_cons, ih, List.count_cons]
    by_cases hkey : first = key
    · subst hkey
      rw [increment, find?_insert_self]
      by_cases hrest : rest.count first = 0
      · simp [hrest]
      · simp only [hrest, beq_self_eq_true, if_true, if_false, Option.getD_some]
        rw [if_neg (by omega)]
        congr 1
        omega
    · rw [increment, find?_insert_of_ne _ _ (Ne.symm hkey), beq_false_of_ne hkey]
      simp

theorem mem_tally_iff [DecidableEq κ] {keys : List κ} {key : κ} {n : Nat} :
    (key, n) ∈ tally keys ↔ 0 < n ∧ n = keys.count key := by
  have hfind : (tally keys).find? key =
      if keys.count key = 0 then none else some (keys.count key) := by
    rw [tally, find?_foldl_increment]
    simp [find?]
  constructor
  · intro h
    rw [(sorted_tally keys).find? h] at hfind
    split at hfind
    · cases hfind
    · cases hfind
      omega
  · rintro ⟨hpos, rfl⟩
    rw [if_neg (by omega)] at hfind
    exact mem_of_find? hfind

theorem sum_insert (h : d.Sorted) (key : κ) (n : Nat) :
    ((d.insert key n).map Prod.snd).sum + (d.find? key).getD 0 = (d.map Prod.snd).sum + n := by
  induction d with
  | nil => simp [insert, Dict.find?]
  | cons first rest ih =>
    obtain ⟨hfirst, hrest⟩ := List.pairwise_cons.mp h
    obtain ⟨k, m⟩ := first
    rw [insert, Dict.find?]
    cases hcompare : compare key k with
    | lt =>
      have hnone : Dict.find? rest key = none := by
        refine Option.eq_none_iff_forall_not_mem.mpr fun v hv => ?_
        have hgt := Std.OrientedCmp.gt_iff_lt.mpr (hfirst _ (mem_of_find? hv))
        rw [hcompare] at hgt
        cases hgt
      simp [hnone]
      omega
    | eq =>
      simp
      omega
    | gt =>
      have hsum := ih hrest
      simp
      omega

theorem sum_tally (keys : List κ) : ((tally keys).map Prod.snd).sum = keys.length := by
  have hfold {d : Dict κ Nat} (h : d.Sorted) :
      ((keys.foldl increment d).map Prod.snd).sum = (d.map Prod.snd).sum + keys.length := by
    induction keys generalizing d with
    | nil => rfl
    | cons key rest ih =>
      have hsum := sum_insert h key ((d.find? key).getD 0 + 1)
      have hrest := ih (d := d.increment key) (h.insert key _)
      rw [List.foldl_cons, hrest, List.length_cons, increment]
      omega
  simpa [tally] using hfold List.Pairwise.nil

end Dict

namespace Drawing

deriving instance DecidableEq for BorderKey

instance : Std.TransOrd BorderKey :=
  inferInstanceAs (Std.TransCmp
    (compareLex (compareOn BorderKey.entry) (compareOn BorderKey.property)))

instance : Std.LawfulEqOrd BorderKey where
  eq_of_compare {a b} h := by
    obtain ⟨entry, property⟩ := a
    obtain ⟨entry', property'⟩ := b
    obtain ⟨hentry, hproperty⟩ := Ordering.then_eq_eq.mp h
    have hentries : entry = entry' := Std.LawfulEqOrd.eq_of_compare hentry
    have hproperties : property = property' := Std.LawfulEqOrd.eq_of_compare hproperty
    rw [hentries, hproperties]

end Drawing

/-! ### What may be viewed -/

namespace Environment

variable (environment : Environment) (c : Context)

/-- The entry that an identifier or key denotes in a scope, if it may be viewed there. -/
def denoted? (id : EntryId) : Option EntryRecord :=
  (environment.graph.entry? c.site id.text).filter fun record =>
    Drawing.canView environment c record.id

/-- Entries are named by their identifiers where they have been denoted before. -/
def NamesAgain (ids : List EntryId) : Prop :=
  ids.Pairwise fun earlier later => ∀ record ∈ environment.denoted? c earlier,
    ∀ record' ∈ environment.denoted? c later, record'.id = record.id → record'.id = later

end Environment

def Concrete.entryId? (item : Concrete) : Option EntryId :=
  match item.unannotated with
  | .entry id => some id
  | _ => none

def EntryRecord.node (record : EntryRecord) (c : Context) : Drawing.Node :=
  ⟨record.id, record.name, record.entryType, c.entry == some record.id⟩

def RelationshipRecord.edge (relationship : RelationshipRecord) : Drawing.Edge :=
  ⟨relationship.source, relationship.target, relationship.property⟩

namespace Drawing

variable (environment : Environment) (c : Context)

/-- The nodes with the entry that an identifier or key denotes, unless it is the identifier of a
node. -/
def place (nodes : List Node) (id : EntryId) : List Node :=
  if isDrawn nodes id then nodes
  else nodes ++ ((environment.denoted? c id).map fun record => record.node c).toList

variable (nodes : List Node)

def inside (relationship : RelationshipRecord) : Bool :=
  isDrawn nodes relationship.source && isDrawn nodes relationship.target

/-- The end of a relationship that is drawn, with its property, if the other end is not drawn and
may be viewed. -/
def crossing? (relationship : RelationshipRecord) : Option BorderKey :=
  match isDrawn nodes relationship.source, isDrawn nodes relationship.target with
  | true, false =>
    if canView environment c relationship.target then
      some ⟨relationship.source, relationship.property⟩
    else none
  | false, true =>
    if canView environment c relationship.source then
      some ⟨relationship.target, relationship.property⟩
    else none
  | _, _ => none

def sketchOf (relationships : List RelationshipRecord) : Sketch :=
  ⟨(relationships.filter (inside nodes)).map RelationshipRecord.edge,
    Dict.tally (relationships.filterMap (crossing? environment c nodes))⟩

end Drawing

/-! ### Runs where all services can be reached -/

section

variable {environment : Environment} (hreach : ∀ service, environment.outage service = none)
  {c : Context} {s : EvalState}

include hreach

theorem Store.entry?_run (name : String) :
    entry? c name environment s = some (.ok (environment.graph.entry? c.site name), s) := by
  unfold entry?
  rw [consult_run, hreach]

theorem Evaluator.node?_run (id : EntryId) : node? c id environment s =
    some (.ok ((environment.denoted? c id).map fun record => record.node c), s) := by
  unfold node? Environment.denoted?
  cases hentry : environment.graph.entry? c.site id.text with
  | none =>
    have hvisible : Store.visibleEntry c id.text environment s =
        some (.error (.eval (.notFound "Entry" id.text)), s) := by
      unfold Store.visibleEntry
      rw [EvalM.bind_of_ok (Store.entry?_run hreach id.text), hentry]
      rfl
    rw [EvalM.bind_of_ok (EvalM.outcome_of_some hvisible)]
    rfl
  | some record =>
    have hvisible : Store.visibleEntry c id.text environment s =
        some (if Drawing.canView environment c record.id then .ok record
          else .error (.eval (.notFound "Entry" id.text)), s) := by
      unfold Store.visibleEntry
      rw [EvalM.bind_of_ok (Store.entry?_run hreach id.text), hentry]
      have hfound : Store.found "Entry" id.text (some record) environment s =
          some (.ok record, s) := rfl
      rw [EvalM.bind_of_ok hfound, EvalM.bind_of_ok (Drawing.canView_run (hreach _) record.id s)]
      split <;> rfl
    rw [EvalM.bind_of_ok (EvalM.outcome_of_some hvisible), Option.filter_some]
    split <;> rfl

theorem Evaluator.drawNodes_run (argument : Expr) {items : List Concrete}
    (h : ∀ item ∈ items, item.unannotated = .null ∨ ∃ id, item.unannotated = .entry id)
    (nodes : List Drawing.Node) : drawNodes argument c nodes items environment s =
      some (.ok ((items.filterMap Concrete.entryId?).foldl (Drawing.place environment c) nodes),
        s) := by
  induction items generalizing nodes with
  | nil => rfl
  | cons item rest ih =>
    obtain ⟨hitem, hrest⟩ := List.forall_mem_cons.mp h
    unfold drawNodes
    rcases hitem with hnull | ⟨id, hid⟩
    · have hnone : item.entryId? = none := by rw [Concrete.entryId?, hnull]
      rw [hnull, List.filterMap_cons_none hnone]
      exact ih hrest nodes
    · have hsome : item.entryId? = some id := by rw [Concrete.entryId?, hid]
      rw [hid, List.filterMap_cons_some hsome, List.foldl_cons, Drawing.place]
      dsimp only
      split
      · exact ih hrest nodes
      · rw [EvalM.bind_of_ok (Evaluator.node?_run hreach id)]
        exact ih hrest _

end

/-! ### The relationships of the graph -/

namespace Drawing

variable {environment : Environment} {c : Context} {nodes : List Node}

/-- What one more relationship adds to a sketch. -/
theorem draw_eq (sketch : Sketch) (relationship : RelationshipRecord) :
    sketch.draw nodes (canView environment c) relationship =
      ⟨sketch.edges ++ if inside nodes relationship then [relationship.edge] else [],
        (crossing? environment c nodes relationship).elim sketch.crossings
          sketch.crossings.increment⟩ := by
  obtain ⟨edges, crossings⟩ := sketch
  unfold Sketch.draw inside crossing?
  cases isDrawn nodes relationship.source <;> cases isDrawn nodes relationship.target
  · simp
  · cases canView environment c relationship.source <;> simp [Sketch.cross, Dict.increment]
  · cases canView environment c relationship.target <;> simp [Sketch.cross, Dict.increment]
  · rfl

theorem foldl_draw (relationships : List RelationshipRecord) (sketch : Sketch) :
    relationships.foldl (Sketch.draw nodes (canView environment c)) sketch =
      ⟨sketch.edges ++ (relationships.filter (inside nodes)).map RelationshipRecord.edge,
        (relationships.filterMap (crossing? environment c nodes)).foldl Dict.increment
          sketch.crossings⟩ := by
  induction relationships generalizing sketch with
  | nil => simp
  | cons relationship rest ih =>
    rw [List.foldl_cons, ih, draw_eq, List.append_assoc, List.filterMap_cons]
    have hedges : ((if inside nodes relationship then [relationship.edge] else []) ++
        (rest.filter (inside nodes)).map RelationshipRecord.edge) =
        ((relationship :: rest).filter (inside nodes)).map RelationshipRecord.edge := by
      cases hinside : inside nodes relationship <;> simp [hinside]
    rw [hedges]
    cases crossing? environment c nodes relationship <;> rfl

theorem isDrawn_eq_contains (nodes : List Node) (id : EntryId) :
    isDrawn nodes id = (nodes.map Node.id).contains id := by
  rw [Bool.eq_iff_iff, isDrawn_iff, List.contains_iff_mem, List.mem_map]

def touched (nodes : List Node) (relationship : RelationshipRecord) : Bool :=
  isDrawn nodes relationship.source || isDrawn nodes relationship.target

theorem touched_of_inside {relationship : RelationshipRecord}
    (h : inside nodes relationship = true) : touched nodes relationship = true := by
  unfold inside at h
  unfold touched
  simp_all

theorem crossing?_of_not_touched {relationship : RelationshipRecord}
    (h : touched nodes relationship = false) :
    crossing? environment c nodes relationship = none := by
  obtain ⟨hsource, htarget⟩ := Bool.or_eq_false_iff.mp h
  rw [crossing?, hsource, htarget]

/-- Relationships that the drawing does not touch leave the sketch as it is. -/
theorem sketchOf_filter_touched (relationships : List RelationshipRecord) :
    sketchOf environment c nodes (relationships.filter (touched nodes)) =
      sketchOf environment c nodes relationships := by
  unfold sketchOf
  congr 2
  · rw [List.filter_filter]
    refine List.filter_congr fun relationship _ => ?_
    cases hinside : inside nodes relationship with
    | false => rfl
    | true => exact touched_of_inside hinside
  · rw [List.filterMap_filter]
    refine List.filterMap_congr fun relationship _ => ?_
    split
    · rfl
    next h => exact (crossing?_of_not_touched (Bool.eq_false_iff.mpr h)).symm

theorem relationships_eq_filter {graph : Graph} {site : SiteId}
    (hsite : nodes ≠ [] → site = graph.site) : graph.relationships site (nodes.map Node.id) =
      (graph.facts.filterMap Graph.relationship?).filter (touched nodes) := by
  unfold Graph.relationships Graph.onSite
  simp only [← isDrawn_eq_contains]
  split
  · rfl
  next hother =>
    have hnone : nodes = [] := by_contra fun hnodes => hother (hsite hnodes)
    rw [hnone]
    exact (List.filter_eq_nil_iff.mpr fun _ _ => Bool.false_ne_true).symm

/-- Where all services can be reached, the relationships of the graph are sketched. -/
theorem sketch_run_sketchOf (hreach : ∀ service, environment.outage service = none)
    (hsite : nodes ≠ [] → c.site = environment.graph.site) (s : EvalState) :
    sketch nodes c environment s = some (.ok (sketchOf environment c nodes
      (environment.graph.facts.filterMap Graph.relationship?)), s) := by
  rw [sketch_run (hreach _), hreach, relationships_eq_filter hsite, ← sketchOf_filter_touched]
  dsimp only
  rw [foldl_draw]
  rfl

end Drawing

/-! ### The nodes -/

namespace Environment

variable {environment : Environment} {fixture : Fixture} {c : Context} {id : EntryId}
  {record : EntryRecord}

theorem denoted?_id (hgraph : fixture.toGraph = .ok environment.graph)
    (h : environment.denoted? c id = some record) :
    environment.denoted? c record.id = some record := by
  obtain ⟨hentry, hviews⟩ := Option.filter_eq_some_iff.mp h
  have hsite : c.site = environment.graph.site := by
    by_contra hother
    rw [Graph.entry?, Graph.onSite, if_neg hother] at hentry
    cases hentry
  have hfound : environment.graph.entry? c.site record.id.text = some record := by
    have hkept : environment.graph.entries.find? ⟨record.id.text⟩ = some record :=
      Fixture.find?_id_of_entry? hgraph hentry
    rw [Graph.entry?, Graph.onSite, if_pos hsite, hkept]
  rw [denoted?, hfound, Option.filter_some, if_pos hviews]

end Environment

namespace Drawing

variable (environment : Environment) (c : Context)

def nodesOf (ids : List EntryId) : List Node :=
  ids.foldl (place environment c) []

/-- The nodes of the entries that identifiers and keys denote, each as often as it is denoted. -/
def denotedNodes (ids : List EntryId) : List Node :=
  (ids.filterMap (environment.denoted? c)).map fun record => record.node c

variable {environment : Environment} {c : Context}

theorem mem_denotedNodes {ids : List EntryId} {node : Node} :
    node ∈ denotedNodes environment c ids ↔
      ∃ id ∈ ids, ∃ record, environment.denoted? c id = some record ∧ record.node c = node := by
  simp only [denotedNodes, List.mem_map, List.mem_filterMap]
  grind

theorem nodesOf_append_singleton (ids : List EntryId) (id : EntryId) :
    nodesOf environment c (ids ++ [id]) = place environment c (nodesOf environment c ids) id := by
  rw [nodesOf, List.foldl_append]
  rfl

theorem denotedNodes_append_singleton (ids : List EntryId) (id : EntryId) :
    denotedNodes environment c (ids ++ [id]) = denotedNodes environment c ids ++
      ((environment.denoted? c id).map fun record => record.node c).toList := by
  unfold denotedNodes
  rw [List.filterMap_append, List.map_append]
  congr 1
  cases hid : environment.denoted? c id <;> simp [hid]

variable {fixture : Fixture} (hgraph : fixture.toGraph = .ok environment.graph)

include hgraph

/-- The nodes are the entries denoted, in the order in which they are first denoted. -/
theorem eraseDups_nodesOf (ids : List EntryId) :
    (nodesOf environment c ids).eraseDups = (denotedNodes environment c ids).eraseDups := by
  induction ids using List.reverseRecOn with
  | nil => rfl
  | append_singleton ids id ih =>
    have hmem (node : Node) :
        node ∈ nodesOf environment c ids ↔ node ∈ denotedNodes environment c ids := by
      rw [← List.mem_eraseDups, ih, List.mem_eraseDups]
    rw [nodesOf_append_singleton, denotedNodes_append_singleton, List.eraseDups_append, ← ih, place]
    split
    next hdrawn =>
      obtain ⟨node, hnode, rfl⟩ := isDrawn_iff.mp hdrawn
      obtain ⟨earlier, -, record, hrecord, rfl⟩ := mem_denotedNodes.mp ((hmem node).mp hnode)
      have hagain : environment.denoted? c (record.node c).id = some record :=
        Environment.denoted?_id hgraph hrecord
      simp [hagain, List.removeAll, (hmem _).mp hnode]
    next =>
      rw [List.eraseDups_append]
      congr 2
      refine List.filter_congr fun node _ => ?_
      rw [Bool.eq_iff_iff]
      simp [hmem]

theorem mem_nodesOf {ids : List EntryId} {node : Node} :
    node ∈ nodesOf environment c ids ↔
      ∃ id ∈ ids, ∃ record, environment.denoted? c id = some record ∧ record.node c = node := by
  rw [← List.mem_eraseDups, eraseDups_nodesOf hgraph, List.mem_eraseDups, mem_denotedNodes]

theorem isDrawn_nodesOf (ids : List EntryId) (id : EntryId) :
    isDrawn (nodesOf environment c ids) id = true ↔
      ∃ earlier ∈ ids, ∃ record, environment.denoted? c earlier = some record ∧ record.id = id := by
  rw [isDrawn_iff]
  constructor
  · rintro ⟨node, hnode, rfl⟩
    obtain ⟨earlier, hearlier, record, hrecord, rfl⟩ := (mem_nodesOf hgraph).mp hnode
    exact ⟨earlier, hearlier, record, hrecord, rfl⟩
  · rintro ⟨earlier, hearlier, record, hrecord, rfl⟩
    exact ⟨record.node c, (mem_nodesOf hgraph).mpr ⟨earlier, hearlier, record, hrecord, rfl⟩, rfl⟩

theorem nodup_place_iff (ids : List EntryId) (id : EntryId) :
    ((place environment c (nodesOf environment c ids) id).map Node.id).Nodup ↔
      ((nodesOf environment c ids).map Node.id).Nodup ∧
        ∀ earlier ∈ ids, ∀ record ∈ environment.denoted? c earlier,
          ∀ record' ∈ environment.denoted? c id, record'.id = record.id → record'.id = id := by
  have hdrawn (id : EntryId) := isDrawn_nodesOf (c := c) hgraph ids id
  rw [place]
  split
  next hid =>
    refine (and_iff_left ?_).symm
    intro earlier hearlier record hrecord record' hrecord' hsame
    obtain ⟨_, _, first, hfirst, rfl⟩ := (hdrawn id).mp hid
    cases (Environment.denoted?_id hgraph hfirst).symm.trans hrecord'
    rfl
  next hnew =>
    cases hid : environment.denoted? c id with
    | none => simp
    | some record' =>
      have hmem : record'.id ∈ (nodesOf environment c ids).map Node.id ↔
          ∃ earlier ∈ ids, ∃ record,
            environment.denoted? c earlier = some record ∧ record.id = record'.id := by
        rw [← hdrawn, isDrawn_eq_contains, List.contains_iff_mem]
      rw [Option.map_some, Option.toList_some, List.map_append, List.map_singleton,
        ← List.concat_eq_append, List.nodup_concat, and_comm]
      refine and_congr_right fun _ => ?_
      change record'.id ∉ _ ↔ _
      rw [hmem]
      constructor
      · intro hnot earlier hearlier record hrecord _ hrecord' hsame
        cases hrecord'
        exact absurd ⟨earlier, hearlier, record, hrecord, hsame.symm⟩ hnot
      · rintro hagain ⟨earlier, hearlier, record, hrecord, hsame⟩
        have hnamed := hagain earlier hearlier record hrecord record' rfl hsame.symm
        exact hnew ((hdrawn id).mpr ⟨earlier, hearlier, record, hrecord, hsame.trans hnamed⟩)

/-- No entry is drawn twice if and only if entries are named by their identifiers where they have
been denoted before. -/
theorem nodup_nodesOf_iff (ids : List EntryId) :
    ((nodesOf environment c ids).map Node.id).Nodup ↔ environment.NamesAgain c ids := by
  induction ids using List.reverseRecOn with
  | nil => exact ⟨fun _ => List.Pairwise.nil, fun _ => List.nodup_nil⟩
  | append_singleton ids id ih =>
    rw [nodesOf_append_singleton, nodup_place_iff hgraph, ih]
    unfold Environment.NamesAgain
    rw [List.pairwise_append]
    simp

end Drawing

/-! ### The drawing -/

namespace Drawing

variable (environment : Environment) (c : Context)

/-- A relationship of a property leads from or to a drawn entry, and its other end is not drawn and
may be viewed. -/
def countedAt (nodes : List Node) (entry : EntryId) (property : PropertyId)
    (relationship : RelationshipRecord) : Bool :=
  relationship.property == property && isDrawn nodes entry &&
    (relationship.source == entry && !isDrawn nodes relationship.target &&
        canView environment c relationship.target ||
      relationship.target == entry && !isDrawn nodes relationship.source &&
        canView environment c relationship.source)

/-- One end of a relationship is drawn, and the other end is not and may not be viewed. -/
def hidden (nodes : List Node) (relationship : RelationshipRecord) : Bool :=
  isDrawn nodes relationship.source && !isDrawn nodes relationship.target &&
      !canView environment c relationship.target ||
    isDrawn nodes relationship.target && !isDrawn nodes relationship.source &&
      !canView environment c relationship.source

/-- The drawing has the entries that are denoted as its nodes, and each relationship of the graph
that touches these is drawn, counted at one border or hidden. -/
structure Partitions (ids : List EntryId) (drawing : Drawing) : Prop where
  nodes : drawing.nodes.eraseDups = (denotedNodes environment c ids).eraseDups
  distinct : (drawing.nodes.map Node.id).Nodup ↔ environment.NamesAgain c ids
  once : environment.NamesAgain c ids →
    drawing.nodes = (denotedNodes environment c ids).eraseDups
  edges : drawing.edges = ((environment.graph.facts.filterMap Graph.relationship?).filter
    (inside drawing.nodes)).map RelationshipRecord.edge
  borders_distinct : (drawing.borders.map fun border => (border.entry, border.property)).Nodup
  mem_borders : ∀ border, border ∈ drawing.borders ↔ 0 < border.count ∧
    border.count = (environment.graph.facts.filterMap Graph.relationship?).countP
      (countedAt environment c drawing.nodes border.entry border.property)
  complete : drawing.edges.length + (drawing.borders.map Border.count).sum +
      (environment.graph.facts.filterMap Graph.relationship?).countP
        (hidden environment c drawing.nodes) =
    (environment.graph.facts.filterMap Graph.relationship?).countP (touched drawing.nodes)

variable {environment : Environment} {c : Context} {nodes : List Node}

theorem crossing?_eq_some_iff {entry : EntryId} {property : PropertyId}
    {relationship : RelationshipRecord} :
    crossing? environment c nodes relationship = some ⟨entry, property⟩ ↔
      countedAt environment c nodes entry property relationship = true := by
  obtain ⟨fact, property', source, target⟩ := relationship
  unfold crossing? countedAt
  dsimp only
  cases hsource : isDrawn nodes source <;> cases htarget : isDrawn nodes target <;> grind

/-- A relationship that is touched is drawn, counted or hidden. -/
theorem toNat_touched (environment : Environment) (c : Context) (nodes : List Node)
    (relationship : RelationshipRecord) :
    (inside nodes relationship).toNat +
        (crossing? environment c nodes relationship).isSome.toNat +
        (hidden environment c nodes relationship).toNat =
      (touched nodes relationship).toNat := by
  unfold inside crossing? hidden touched
  cases isDrawn nodes relationship.source <;> cases isDrawn nodes relationship.target
  · rfl
  · cases canView environment c relationship.source <;> rfl
  · cases canView environment c relationship.target <;> rfl
  · rfl

theorem countP_touched (relationships : List RelationshipRecord) :
    relationships.countP (inside nodes) +
        relationships.countP (fun r => (crossing? environment c nodes r).isSome) +
        relationships.countP (hidden environment c nodes) =
      relationships.countP (touched nodes) := by
  have hone (b : Bool) : (if b = true then 1 else 0) = b.toNat := by cases b <;> rfl
  induction relationships with
  | nil => rfl
  | cons relationship rest ih =>
    have hfirst := toNat_touched environment c nodes relationship
    simp only [List.countP_cons, hone]
    omega

def bordersOf (sketch : Sketch) : List Border :=
  sketch.crossings.map fun entry => ⟨entry.1.entry, entry.1.property, entry.2⟩

theorem nodup_bordersOf {sketch : Sketch} (h : sketch.crossings.Sorted) :
    ((bordersOf sketch).map fun border => (border.entry, border.property)).Nodup := by
  rw [bordersOf, List.map_map]
  refine List.pairwise_map.mpr (h.imp fun {a b} hlt hsame => ?_)
  obtain ⟨hentry, hproperty⟩ := Prod.mk.inj hsame
  have hkey : a.1 = b.1 := by rw [BorderKey.mk.injEq]; exact ⟨hentry, hproperty⟩
  rw [hkey, Std.ReflOrd.compare_self] at hlt
  cases hlt

theorem mem_bordersOf {sketch : Sketch} {border : Border} : border ∈ bordersOf sketch ↔
    (⟨border.entry, border.property⟩, border.count) ∈ sketch.crossings := by
  simp only [bordersOf, List.mem_map]
  constructor
  · rintro ⟨entry, hentry, rfl⟩
    exact hentry
  · exact fun h => ⟨_, h, rfl⟩

theorem eraseDups_eq_of_nodup {nodes : List Node} (h : nodes.Nodup) : nodes.eraseDups = nodes := by
  induction nodes with
  | nil => rfl
  | cons node rest ih =>
    obtain ⟨hnode, hrest⟩ := List.nodup_cons.mp h
    have hkept : rest.filter (fun other => !other == node) = rest := by
      refine List.filter_eq_self.mpr fun other hother => ?_
      have hne : other ≠ node := fun heq => hnode (heq ▸ hother)
      simpa using hne
    rw [List.eraseDups_cons, hkept, ih hrest]

variable (environment c) in
def ofIds (ids : List EntryId) : Drawing :=
  let nodes := nodesOf environment c ids
  let sketch := sketchOf environment c nodes
    (environment.graph.facts.filterMap Graph.relationship?)
  ⟨nodes, sketch.edges, bordersOf sketch⟩

theorem partitions_ofIds {fixture : Fixture} (hgraph : fixture.toGraph = .ok environment.graph)
    (ids : List EntryId) : (ofIds environment c ids).Partitions environment c ids := by
  set drawing := ofIds environment c ids with hdrawing
  have hborders : drawing.borders = bordersOf (sketchOf environment c drawing.nodes
    (environment.graph.facts.filterMap Graph.relationship?)) := rfl
  have hfirst : drawing.nodes.eraseDups = (denotedNodes environment c ids).eraseDups := by
    exact eraseDups_nodesOf hgraph ids
  have hdistinct : (drawing.nodes.map Node.id).Nodup ↔ environment.NamesAgain c ids := by
    exact nodup_nodesOf_iff hgraph ids
  refine ⟨hfirst, hdistinct, fun hagain => ?once, rfl, ?bordersDistinct,
    fun border => ?memBorders, ?complete⟩
  case once => rw [← hfirst, eraseDups_eq_of_nodup (hdistinct.mpr hagain).of_map]
  case bordersDistinct =>
    rw [hborders]
    exact nodup_bordersOf (Dict.sorted_tally _)
  case memBorders =>
    have hcount : ((environment.graph.facts.filterMap Graph.relationship?).filterMap
        (crossing? environment c drawing.nodes)).count ⟨border.entry, border.property⟩ =
        (environment.graph.facts.filterMap Graph.relationship?).countP
          (countedAt environment c drawing.nodes border.entry border.property) := by
      rw [List.count, List.countP_filterMap]
      refine List.countP_congr fun relationship _ => ?_
      rw [← crossing?_eq_some_iff]
      cases crossing? environment c drawing.nodes relationship <;> simp
    rw [hborders, mem_bordersOf, sketchOf, Dict.mem_tally_iff, hcount]
  case complete =>
    have hsum : (drawing.borders.map Border.count).sum =
        (environment.graph.facts.filterMap Graph.relationship?).countP
          fun r => (crossing? environment c drawing.nodes r).isSome := by
      rw [hborders, bordersOf, List.map_map, ← List.length_filterMap_eq_countP]
      exact Dict.sum_tally _
    rw [hsum, hdrawing, ofIds, sketchOf, List.length_map, ← List.countP_eq_length_filter]
    exact countP_touched _

end Drawing

namespace Evaluator

variable {environment : Environment} {fixture : Fixture} {c : Context}

theorem site_of_nodesOf (hgraph : fixture.toGraph = .ok environment.graph) (ids : List EntryId)
    (h : Drawing.nodesOf environment c ids ≠ []) : c.site = environment.graph.site := by
  obtain ⟨node, hnode⟩ := List.exists_mem_of_ne_nil _ h
  obtain ⟨id, -, record, hrecord, -⟩ := (Drawing.mem_nodesOf hgraph).mp hnode
  by_contra hother
  have hentry := (Option.filter_eq_some_iff.mp hrecord).1
  rw [Graph.entry?, Graph.onSite, if_neg hother] at hentry
  cases hentry

/-- Where all services can be reached, a value whose first items are entries or null is drawn, and
the drawing partitions the relationships that touch it. -/
theorem graph_partitions (hgraph : fixture.toGraph = .ok environment.graph)
    (hreach : ∀ service, environment.outage service = none) (evaluator : Evaluator)
    {argument : Expr} {v : Value} {items : List Concrete} {s s' t : EvalState}
    (hvalue : evaluator.evaluateIterable c argument environment s = some (.ok v, s'))
    (hitems : evaluator.slice v 0 environment.config.graphEntries environment s' =
      some (.ok items, t))
    (hentries : ∀ item ∈ items, item.unannotated = .null ∨ ∃ id, item.unannotated = .entry id) :
    ∃ drawing : Drawing, evaluator.evaluateNode c (.call (.builtin .graph) (some argument) [])
        environment s = some (.ok (.concrete (.graph drawing)), t) ∧
      drawing.Partitions environment c (items.filterMap Concrete.entryId?) := by
  have hnodes := drawNodes_run (c := c) (s := t) hreach argument hentries []
  generalize items.filterMap Concrete.entryId? = ids at hnodes
  refine ⟨Drawing.ofIds environment c ids, ?_, Drawing.partitions_ofIds hgraph ids⟩
  change evaluator.draw ⟨.builtin .graph, some argument, []⟩ c environment s = _
  have hargument : (Call.mk (.builtin .graph) (some argument) []).argument environment s =
      some (.ok argument, s) := rfl
  have hsketch := Drawing.sketch_run_sketchOf hreach
    (site_of_nodesOf (c := c) hgraph ids) t
  have hdrawn := EvalM.bind_of_ok (f := fun sketch : Drawing.Sketch =>
    (pure (.concrete (.graph ⟨Drawing.nodesOf environment c ids, sketch.edges,
      Drawing.bordersOf sketch⟩)) : EvalM Value)) hsketch
  rw [Drawing.sketch, bind_assoc] at hdrawn
  rw [draw, EvalM.bind_of_ok hargument, EvalM.bind_of_ok hvalue, EvalM.bind_of_ok EvalM.read_run,
    EvalM.bind_of_ok hitems, EvalM.bind_of_ok hnodes]
  exact hdrawn

end Evaluator

/-- Four trees, one of a type that is restricted, with the relationships of one of them. -/
def Fixture.grove : Fixture where
  site := ⟨"s"⟩
  entries := [⟨⟨"ash"⟩, "", "Ash", "", ⟨"t"⟩⟩, ⟨⟨"elm"⟩, "", "Elm", "", ⟨"t"⟩⟩,
    ⟨⟨"oak"⟩, "quercus", "Oak", "", ⟨"t"⟩⟩, ⟨⟨"yew"⟩, "", "Yew", "", ⟨"u"⟩⟩]
  properties := [⟨⟨"near"⟩, "", "Near", .relationship, false, none⟩]
  facts := [{ entry := ⟨"oak"⟩, property := ⟨"near"⟩, target := some ⟨"elm"⟩ },
    { entry := ⟨"oak"⟩, property := ⟨"near"⟩, target := some ⟨"ash"⟩ },
    { entry := ⟨"yew"⟩, property := ⟨"near"⟩, target := some ⟨"oak"⟩ }]
  policy := { restrictedTypes := [⟨"u"⟩] }

def Environment.grove : Environment where
  graph := {
    site := ⟨"s"⟩
    entries := Fixture.grove.entries.map fun entry => (entry.id, entry)
    properties := [(⟨"near"⟩, ⟨⟨"near"⟩, "", "Near", .relationship, false, none⟩)]
    facts := Fixture.grove.facts.mapIdx Fixture.Fact.record
    policy := { restrictedTypes := [⟨"u"⟩] } }

def Expr.graphOf (names : List EntryId) : Expr :=
  .call (.builtin .graph) (some (.list (names.map fun name => .literal (.entry name)))) []

open Evaluator in
/-- Two of the trees are drawn with the relationship between them, one is counted at the border, and
one is hidden. -/
theorem Evaluator.graph_partitions_grove :
    let c : Context := ⟨⟨"s"⟩, none, none, 10, [], 0⟩
    let ids : List EntryId := [⟨"oak"⟩, ⟨"elm"⟩, ⟨"oak"⟩]
    Environment.grove.NamesAgain c ids ∧
    ∃ drawing s, (ofDepth 5).evaluateNode c (.graphOf ids) Environment.grove
        ({} : EvalState).withCache = some (.ok (.concrete (.graph drawing)), s) ∧
      drawing.Partitions Environment.grove c ids ∧
      drawing.nodes.map Drawing.Node.id = [⟨"oak"⟩, ⟨"elm"⟩] ∧
      drawing.edges = [⟨⟨"oak"⟩, ⟨"elm"⟩, ⟨"near"⟩⟩] ∧
      ⟨⟨"oak"⟩, ⟨"near"⟩, 1⟩ ∈ drawing.borders := by
  intro c ids
  have hgraph : Fixture.grove.toGraph = .ok Environment.grove.graph := rfl
  obtain ⟨s, hvalue⟩ : ∃ s, (ofDepth 5).evaluateIterable c
      (.list (ids.map fun name => .literal (.entry name))) Environment.grove
        ({} : EvalState).withCache = some (.ok (.concrete (.list (ids.map .entry))), s) := by
    dsimp only [c, ids]
    exact ⟨_, rfl⟩
  have hitems : (ofDepth 5).slice (.concrete (.list (ids.map .entry))) 0 100 Environment.grove s =
      some (.ok (ids.map .entry), s) := rfl
  obtain ⟨drawing, hrun, hparts⟩ := graph_partitions hgraph (fun _ => rfl) (ofDepth 5) hvalue hitems
    (by simp [Concrete.unannotated])
  have hoak : Environment.grove.denoted? c ⟨"oak"⟩ =
      some ⟨⟨"oak"⟩, "quercus", "Oak", "", ⟨"t"⟩⟩ := rfl
  have helm : Environment.grove.denoted? c ⟨"elm"⟩ = some ⟨⟨"elm"⟩, "", "Elm", "", ⟨"t"⟩⟩ := rfl
  have hagain : Environment.grove.NamesAgain c ids := by
    simp [Environment.NamesAgain, ids, hoak, helm]
  have hnodes := hparts.once hagain
  refine ⟨hagain, drawing, s, hrun, hparts, ?_, ?_, (hparts.mem_borders _).mpr ?_⟩
  · rw [hnodes]
    rfl
  · rw [hparts.edges, hnodes]
    rfl
  · rw [hnodes]
    exact ⟨Nat.one_pos, rfl⟩

open Evaluator in
/-- A tree is drawn twice that is named by its identifier and then by its key. -/
theorem Evaluator.graph_draws_twice :
    let c : Context := ⟨⟨"s"⟩, none, none, 10, [], 0⟩
    Fixture.grove.toGraph = .ok Environment.grove.graph ∧
    Expr.parse {} "graph([[[/entry/oak]], [[/entry/quercus]]])" =
      .ok (.graphOf [⟨"oak"⟩, ⟨"quercus"⟩]) ∧
    ∃ drawing s, (ofDepth 5).evaluate c (.graphOf [⟨"oak"⟩, ⟨"quercus"⟩]) Environment.grove
        ({} : EvalState).withCache = some (.ok (.concrete (.graph drawing)), s) ∧
      drawing.nodes.map Drawing.Node.id = [⟨"oak"⟩, ⟨"oak"⟩] ∧
      ¬ (drawing.nodes.map Drawing.Node.id).Nodup :=
  ⟨rfl, rfl, _, _, rfl, rfl, by decide⟩

end GraphExpr
