import GraphExpr.Eval.Attribute
import GraphExpr.Eval.Entries
import GraphExpr.Eval.Scalars
import GraphExpr.Proofs.Correspondence
import GraphExpr.Proofs.Dict
import GraphExpr.Proofs.Except
import GraphExpr.Value.Conversion
import GraphExpr.Value.Order

/-! # What occurs in values

Taking values apart and putting them together brings in no entries and no sources of pages beside
those that are there.
-/

namespace GraphExpr

/-- The entries, and the sources of pages, that may occur in a value. -/
structure Allowance where
  entry : EntryId → Prop
  source : Source → Prop
  /-- What pages have to do with their sources. -/
  page : Page Concrete → Source → Prop := fun _ _ => True

structure Drawing.Within (p : EntryId → Prop) (drawing : Drawing) : Prop where
  nodes : ∀ node ∈ drawing.nodes, p node.id
  edges : ∀ edge ∈ drawing.edges, p edge.source ∧ p edge.target
  borders : ∀ border ∈ drawing.borders, p border.entry

namespace Concrete

section

variable (p : Allowance)

mutual

/-- Only what is allowed occurs in a value. -/
def Within : Concrete → Prop
  | entry id => p.entry id
  | list items => WithinItems items
  | range min max => Within min ∧ Within max
  | page ⟨items, startedAt, pageSize, totalCount, source⟩ => WithinItems items ∧
      ∀ s ∈ source, p.source s ∧ p.page ⟨items, startedAt, pageSize, totalCount, source⟩ s
  | annotated value annotations => Within value ∧ WithinEntries annotations
  | graph drawing => drawing.Within p.entry
  | _ => True

def WithinItems : List Concrete → Prop
  | [] => True
  | item :: rest => Within item ∧ WithinItems rest

def WithinEntries : List (String × Concrete) → Prop
  | [] => True
  | (_, value) :: rest => Within value ∧ WithinEntries rest

end

end

variable {p : Allowance}

theorem withinItems_iff {items : List Concrete} :
    WithinItems p items ↔ ∀ x ∈ items, x.Within p := by
  induction items with
  | nil => simp [WithinItems]
  | cons x items ih => rw [WithinItems, ih, List.forall_mem_cons]

theorem withinEntries_iff {annotations : List (String × Concrete)} :
    WithinEntries p annotations ↔ ∀ entry ∈ annotations, entry.2.Within p := by
  induction annotations with
  | nil => simp [WithinEntries]
  | cons x annotations ih => rw [WithinEntries, ih, List.forall_mem_cons]

mutual

theorem within_of_forall (h : ∀ id, p.entry id) (hs : ∀ page s, p.source s ∧ p.page page s) :
    ∀ value : Concrete, value.Within p
  | entry id => h id
  | list items => withinItems_of_forall h hs items
  | range min max => ⟨within_of_forall h hs min, within_of_forall h hs max⟩
  | page ⟨items, _, _, _, _⟩ => ⟨withinItems_of_forall h hs items, fun s _ => hs _ s⟩
  | annotated value annotations =>
    ⟨within_of_forall h hs value, withinEntries_of_forall h hs annotations⟩
  | graph _ => ⟨fun _ _ => h _, fun _ _ => ⟨h _, h _⟩, fun _ _ => h _⟩
  | null | boolean _ | integer _ | quantity _ | string _ | markdown _ | date _ | partialDate _
  | property _ | entryType _ | error _ => trivial

theorem withinItems_of_forall (h : ∀ id, p.entry id)
    (hs : ∀ page s, p.source s ∧ p.page page s) :
    ∀ items : List Concrete, WithinItems p items
  | [] => trivial
  | item :: rest => ⟨within_of_forall h hs item, withinItems_of_forall h hs rest⟩

theorem withinEntries_of_forall (h : ∀ id, p.entry id)
    (hs : ∀ page s, p.source s ∧ p.page page s) :
    ∀ annotations : List (String × Concrete), WithinEntries p annotations
  | [] => trivial
  | (_, value) :: rest => ⟨within_of_forall h hs value, withinEntries_of_forall h hs rest⟩

end

@[simp] theorem within_list {items : List Concrete} :
    (list items).Within p ↔ ∀ x ∈ items, x.Within p :=
  withinItems_iff

@[simp] theorem within_page {page : Page Concrete} :
    (Concrete.page page).Within p ↔
      (∀ x ∈ page.items, x.Within p) ∧ ∀ s ∈ page.source, p.source s ∧ p.page page s :=
  and_congr_left fun _ => withinItems_iff

theorem within_annotated {value : Concrete} {annotations : List (String × Concrete)} :
    (annotated value annotations).Within p ↔
      value.Within p ∧ ∀ entry ∈ annotations, entry.2.Within p :=
  and_congr_right fun _ => withinEntries_iff

theorem within_ofLiteral {l : Literal} (h : ∀ id, l = .entry id → p.entry id) :
    (ofLiteral l).Within p := by
  cases l with
  | entry id => exact h id rfl
  | null | boolean _ | integer _ | quantity _ | string _ | property _ | entryType _ => trivial

theorem Within.unannotated {value : Concrete} (h : value.Within p) :
    value.unannotated.Within p := by
  cases value with
  | annotated inner annotations => exact h.1
  | _ => exact h

theorem within_ofChars (cs : List Char) : ∀ x ∈ ofChars cs, x.Within p := by
  intro x hx
  obtain ⟨c, -, rfl⟩ := List.mem_map.mp hx
  trivial

theorem Within.items {value : Concrete} (h : value.Within p) {items : List Concrete}
    (hitems : value.items? = some items) : ∀ x ∈ items, x.Within p := by
  match value with
  | string s =>
    cases hitems
    exact within_ofChars _
  | list items =>
    cases hitems
    exact within_list.mp h
  | .page sequence =>
    cases hitems
    exact (within_page.mp h).1
  | annotated inner annotations => exact Within.items h.1 hitems
  | null | boolean _ | integer _ | quantity _ | markdown _ | date _ | partialDate _ | entry _
  | property _ | entryType _ | range _ _ | graph _ | error _ => cases hitems

theorem Within.slice {value : Concrete} (h : value.Within p) {offset count : Nat}
    {items : List Concrete} (hitems : value.slice? offset count = some items) :
    ∀ x ∈ items, x.Within p := by
  obtain ⟨all, hall, rfl⟩ := Option.map_eq_some_iff.mp hitems
  exact fun x hx => h.items hall x (List.mem_of_mem_drop (List.mem_of_mem_take hx))

theorem Within.annotate {value result : Concrete} (h : value.Within p)
    {annotations : Dict String Concrete} (ha : ∀ entry ∈ annotations, entry.2.Within p)
    (hr : value.annotate annotations = .ok result) : result.Within p := by
  unfold Concrete.annotate at hr
  split at hr
  · cases hr
  · split at hr
    · cases hr
    · split at hr
      next inner existing =>
        cases hr
        obtain ⟨hinner, hexisting⟩ := within_annotated.mp h
        refine within_annotated.mpr ⟨hinner, fun entry hentry => ?_⟩
        exact (Dict.mem_merge hentry).elim (hexisting entry) (ha entry)
      next =>
        cases hr
        exact within_annotated.mpr ⟨h, ha⟩

theorem within_annotateAll {annotations : Dict String Concrete}
    (ha : ∀ entry ∈ annotations, entry.2.Within p) {items results : List Concrete}
    (h : ∀ x ∈ items, x.Within p) (hr : annotateAll annotations items = .ok results) :
    ∀ x ∈ results, x.Within p := by
  intro y hy
  obtain ⟨x, hx, hxy⟩ := exists_mem_left (mapM_eq_ok hr) hy
  exact (h x hx).annotate ha hxy

theorem Within.annotateSound {value result : Concrete} (h : value.Within p)
    {annotations : Dict String Concrete} (ha : ∀ entry ∈ annotations, entry.2.Within p)
    (hr : value.annotateSound annotations = .ok result) : result.Within p := by
  unfold Concrete.annotateSound at hr
  split at hr
  · cases hr
    trivial
  · split at hr
    · cases hr
      exact h
    · exact h.annotate ha hr

theorem Within.convert {value result : Concrete} (h : value.Within p) {target : ValueType}
    (hr : value.convert? target = some result) : result.Within p := by
  unfold convert? at hr
  split at hr
  · obtain ⟨_, _, rfl⟩ := Option.map_eq_some_iff.mp hr
    trivial
  · cases hr; trivial
  · split at hr <;> cases hr
    trivial
  all_goals cases hr
  all_goals first
    | trivial
    | exact within_list.mpr (within_ofChars _)
    | exact h.1
    | exact within_page.mpr ⟨within_list.mp h, fun s hs => nomatch hs⟩

theorem Within.candidates {item : Concrete} (h : item.Within p) :
    ∀ x ∈ item.candidates, x.Within p := by
  have hu := h.unannotated
  unfold Concrete.candidates
  split
  next => simp
  next min max heq =>
    rw [heq] at hu
    exact List.forall_mem_cons.mpr ⟨hu.1, List.forall_mem_singleton.mpr hu.2⟩
  next => exact List.forall_mem_singleton.mpr hu

theorem mem_widen {bounds : Option (Concrete × Concrete)} {candidate : Concrete}
    {result : Option (Concrete × Concrete)} (h : widen bounds candidate = .ok result)
    {candidates : List Concrete} (hb : ∀ b ∈ bounds, b.1 ∈ candidates ∧ b.2 ∈ candidates)
    (hc : candidate ∈ candidates) : ∀ b ∈ result, b.1 ∈ candidates ∧ b.2 ∈ candidates := by
  unfold widen at h
  split at h
  next =>
    cases h
    rintro _ ⟨⟩
    exact ⟨hc, hc⟩
  next min max =>
    obtain ⟨hmin, hmax⟩ := hb _ rfl
    obtain ⟨below, _, h⟩ := bind_eq_ok h
    obtain ⟨above, _, h⟩ := bind_eq_ok h
    cases h
    rintro _ ⟨⟩
    constructor
    · show (if below = .lt then candidate else min) ∈ candidates
      split
      · exact hc
      · exact hmin
    · show (if above = .gt then candidate else max) ∈ candidates
      split
      · exact hc
      · exact hmax

theorem mem_bounds? {items : List Concrete} {result : Option (Concrete × Concrete)}
    (h : bounds? items = .ok result) :
    ∀ b ∈ result, b.1 ∈ items.flatMap candidates ∧ b.2 ∈ items.flatMap candidates := by
  have hfold {cs : List Concrete} (hcs : ∀ c ∈ cs, c ∈ items.flatMap candidates)
      {start : Option (Concrete × Concrete)}
      (hs : ∀ b ∈ start, b.1 ∈ items.flatMap candidates ∧ b.2 ∈ items.flatMap candidates)
      (hr : cs.foldlM widen start = .ok result) :
      ∀ b ∈ result, b.1 ∈ items.flatMap candidates ∧ b.2 ∈ items.flatMap candidates := by
    induction cs generalizing start with
    | nil =>
      cases hr
      exact hs
    | cons c cs ih =>
      obtain ⟨hfirst, hrest⟩ := List.forall_mem_cons.mp hcs
      obtain ⟨next, hnext, hr⟩ := bind_eq_ok hr
      exact ih hrest (mem_widen hnext hs hfirst) hr
  exact hfold (fun c hc => hc) (by simp) h

theorem within_bounds? {items : List Concrete} {result : Option (Concrete × Concrete)}
    (h : ∀ x ∈ items, x.Within p) (hr : bounds? items = .ok result) :
    ∀ b ∈ result, b.1.Within p ∧ b.2.Within p := by
  have hcandidates : ∀ c ∈ items.flatMap candidates, c.Within p := fun c hc => by
    obtain ⟨item, hitem, hc⟩ := List.mem_flatMap.mp hc
    exact (h item hitem).candidates c hc
  exact fun b hb => (mem_bounds? hr b hb).imp (hcandidates _) (hcandidates _)

theorem within_readDate {s : String} {result : Concrete} (h : readDate s = .ok result) :
    result.Within p := by
  unfold readDate at h
  split at h <;> cases h <;> trivial

theorem within_textOrNull (s : String) : (textOrNull s).Within p := by
  unfold textOrNull
  split <;> trivial

theorem within_entryAttribute? {record : EntryRecord} {name : String} {result : Concrete}
    (h : entryAttribute? record name = some result) : result.Within p := by
  unfold entryAttribute? at h
  split at h <;> cases h
  all_goals first | trivial | exact within_textOrNull _

theorem within_elim {α : Type} (o : Option α) {f : α → Concrete} (h : ∀ a, (f a).Within p) :
    (o.elim null f).Within p := by
  cases o with
  | none => trivial
  | some a => exact h a

theorem Within.plainAttribute {value result : Concrete} (hv : value.Within p) {name : String}
    (h : value.plainAttribute? name = some result) : result.Within p := by
  unfold plainAttribute? at h
  split at h <;> cases h
  all_goals first
    | trivial
    | exact within_elim _ fun _ => trivial
    | exact hv.1
    | exact hv.2

end Concrete

end GraphExpr
