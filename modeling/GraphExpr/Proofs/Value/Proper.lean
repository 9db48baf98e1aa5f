import GraphExpr.Proofs.Canonical.Readable
import GraphExpr.Proofs.Dict
import GraphExpr.Proofs.Value.Dates
import GraphExpr.Proofs.Value.Within

/-! # Proper values

Values are made of constants that were read and of what functions make of them. So dates are those
of some text, units are as they stand between brackets, and annotations have the names that
arguments may have, each once, and are neither left out nor nested.
-/

namespace GraphExpr.Concrete

/-! ### The parts of a value -/

def parts : Concrete → List Concrete
  | list items => items
  | range min max => [min, max]
  | page sequence => sequence.items
  | annotated value annotations => value :: annotations.map Prod.snd
  | _ => []

def writtenParts : Concrete → List Concrete
  | list items => items
  | annotated value annotations => value :: annotations.map Prod.snd
  | _ => []

/-- A condition holds of a value and of everything inside of it. -/
inductive Throughout (inside : Concrete → List Concrete) (p : Concrete → Prop) :
    Concrete → Prop where
  | intro {value : Concrete} : p value → (∀ x ∈ inside value, Throughout inside p x) →
      Throughout inside p value

section

variable {inside inside' : Concrete → List Concrete} {p q : Concrete → Prop} {value x : Concrete}

theorem Throughout.here (h : value.Throughout inside p) : p value := by
  cases h
  assumption

theorem Throughout.part (h : value.Throughout inside p) (hx : x ∈ inside value) :
    x.Throughout inside p := by
  obtain ⟨-, hparts⟩ := h
  exact hparts x hx

theorem throughout_of_atom (h : p value) (hparts : inside value = []) :
    value.Throughout inside p :=
  .intro h (by simp [hparts])

theorem Throughout.mono (h : value.Throughout inside p) (hp : ∀ x, p x → q x)
    (hinside : ∀ x, inside' x ⊆ inside x) : value.Throughout inside' q := by
  induction h with
  | intro hvalue _ ih => exact .intro (hp _ hvalue) fun x hx => ih x (hinside _ hx)

theorem Throughout.and (h : value.Throughout inside p) (h' : value.Throughout inside q) :
    value.Throughout inside fun x => p x ∧ q x := by
  induction h with
  | intro hvalue _ ih => exact .intro ⟨hvalue, h'.here⟩ fun x hx => ih x hx (h'.part hx)

end

theorem writtenParts_subset (value : Concrete) : value.writtenParts ⊆ value.parts := by
  cases value <;> simp [writtenParts, parts]

/-! ### Annotations -/

/-- Annotations are in the order of their names, which are those that arguments may have. -/
structure Notes {α : Type} (annotations : List (String × α)) : Prop where
  sorted : Dict.Sorted annotations
  names : ∀ a ∈ annotations, Token.IsName a.1 ∧ a.1 ∉ Builtin.reservedAnnotationKeys

def withNotes (notes : Dict String Concrete) : Concrete → Concrete
  | annotated value existing => annotated value (Dict.merge existing notes)
  | value => annotated value notes

theorem annotate_eq_ok_iff {value result : Concrete} {notes : Dict String Concrete} :
    value.annotate notes = .ok result ↔
      notes ≠ [] ∧ (∀ a ∈ notes, a.1 ∉ reservedKeys) ∧ result = value.withNotes notes := by
  have hfree : (Dict.keys notes).find? reservedKeys.contains = none ↔
      ∀ a ∈ notes, a.1 ∉ reservedKeys := by
    simp [Dict.keys, List.find?_eq_none]
  unfold annotate
  by_cases hsome : notes = []
  · simp [hsome]
  · rw [if_neg (by simpa using hsome)]
    cases hkey : (Dict.keys notes).find? reservedKeys.contains with
    | some key =>
      refine iff_of_false nofun fun h => ?_
      cases (hfree.mpr h.2.1).symm.trans hkey
    | none =>
      rw [and_iff_right hsome, and_iff_right (hfree.mp hkey)]
      cases value <;> simp [withNotes, eq_comm]

theorem not_mem_reservedKeys {key : String} (h : key ∉ Builtin.reservedAnnotationKeys) :
    key ∉ reservedKeys := by
  simp only [Builtin.reservedAnnotationKeys, reservedKeys, List.mem_cons, List.not_mem_nil,
    or_false, not_or] at h ⊢
  exact ⟨h.2.1, h.2.2.1⟩

theorem annotate_of_notes (value : Concrete) {notes : Dict String Concrete} (hsome : notes ≠ [])
    (h : Notes notes) : value.annotate notes = .ok (value.withNotes notes) :=
  annotate_eq_ok_iff.mpr ⟨hsome, fun a ha => not_mem_reservedKeys (h.names a ha).2, rfl⟩

/-! ### Proper values -/

/-- A value is as constants and functions make it, whatever its parts are. -/
def IsRegular : Concrete → Prop
  | quantity q => ∀ units ∈ q.units,
      Text.trim units.toList = units.toList ∧ ∀ c ∈ units.toList, Token.isUnitChar c = true
  | date d => readDate d.toText = .ok (date d)
  | partialDate d => readDate d.toText = .ok (partialDate d)
  | annotated value annotations =>
      annotations ≠ [] ∧ Notes annotations ∧ value.type ≠ .annotated
  | _ => True

abbrev Proper (value : Concrete) : Prop :=
  value.Throughout parts IsRegular

/-! ### Standards -/

/-- What values and the names of annotations are held to. Regular values that are made anew meet it,
and so do annotations that are there, in order and with names that are allowed. -/
structure Standard where
  regular : Concrete → Prop
  name : String → Prop
  of_regular : ∀ {value : Concrete}, value.IsRegular → value.type ≠ .annotated → regular value
  of_name : ∀ {key : String}, Token.IsName key → key ∉ Builtin.reservedAnnotationKeys → name key
  annotated_iff : ∀ {value : Concrete} {annotations : Dict String Concrete},
    regular (annotated value annotations) ↔ annotations ≠ [] ∧ Dict.Sorted annotations ∧
      (∀ a ∈ annotations, name a.1 ∧ a.1 ∉ reservedKeys) ∧ value.type ≠ .annotated

structure Standard.Notes {α : Type} (standard : Standard) (annotations : List (String × α)) :
    Prop where
  sorted : Dict.Sorted annotations
  names : ∀ a ∈ annotations, standard.name a.1

section

variable {α : Type} {S : Standard} {annotations more : List (String × α)} {key : String}

theorem Standard.notes_nil : S.Notes ([] : List (String × α)) :=
  ⟨.nil, by simp⟩

theorem Notes.standard (h : Notes annotations) : S.Notes annotations where
  sorted := h.sorted
  names a ha := S.of_name (h.names a ha).1 (h.names a ha).2

theorem Standard.Notes.insert (h : S.Notes annotations) (hkey : S.name key) (x : α) :
    S.Notes (Dict.insert annotations key x) where
  sorted := h.sorted.insert key x
  names a ha := (Dict.mem_insert ha).elim (fun heq => heq ▸ hkey) (h.names a)

theorem Standard.Notes.sublist (h : S.Notes annotations) (hsub : more.Sublist annotations) :
    S.Notes more where
  sorted := h.sorted.sublist hsub
  names a ha := h.names a (hsub.subset ha)

end

/-- Values as constants and functions make them. -/
def Standard.proper : Standard where
  regular := IsRegular
  name key := Token.IsName key ∧ key ∉ Builtin.reservedAnnotationKeys
  of_regular h _ := h
  of_name := And.intro
  annotated_iff {value annotations} := by
    constructor
    · rintro ⟨hsome, hnotes, hplain⟩
      exact ⟨hsome, hnotes.sorted, fun a ha =>
        ⟨hnotes.names a ha, not_mem_reservedKeys (hnotes.names a ha).2⟩, hplain⟩
    · rintro ⟨hsome, hsorted, hnames, hplain⟩
      exact ⟨hsome, ⟨hsorted, fun a ha => (hnames a ha).1⟩, hplain⟩

abbrev Meets (standard : Standard) (value : Concrete) : Prop :=
  value.Throughout parts standard.regular

variable {S : Standard} {value result : Concrete} {members results : List Concrete}

theorem meets_of_atom (h : value.IsRegular) (hparts : value.parts = []) : value.Meets S := by
  refine throughout_of_atom (S.of_regular h fun hannotated => ?_) hparts
  cases value <;> simp [type, parts] at hannotated hparts

theorem meets_null : null.Meets S := meets_of_atom trivial rfl

theorem meets_boolean (b : Bool) : (boolean b).Meets S := meets_of_atom trivial rfl

theorem meets_integer (n : Int) : (integer n).Meets S := meets_of_atom trivial rfl

theorem meets_nat (n : Nat) : (nat n).Meets S := meets_integer n

theorem meets_string (s : String) : (string s).Meets S := meets_of_atom trivial rfl

theorem meets_markdown (s : String) : (markdown s).Meets S := meets_of_atom trivial rfl

theorem meets_entry (id : EntryId) : (entry id).Meets S := meets_of_atom trivial rfl

theorem meets_property (id : PropertyId) : (property id).Meets S := meets_of_atom trivial rfl

theorem meets_entryType (id : EntryTypeId) : (entryType id).Meets S := meets_of_atom trivial rfl

theorem meets_graph (drawing : Drawing) : (graph drawing).Meets S := meets_of_atom trivial rfl

theorem meets_error (e : ExprError) : (error e).Meets S := meets_of_atom trivial rfl

theorem meets_magnitude (magnitude : Decimal) : (quantity ⟨magnitude, none⟩).Meets S :=
  meets_of_atom (by simp [IsRegular]) rfl

theorem meets_list (h : ∀ x ∈ members, x.Meets S) : (list members).Meets S :=
  .intro (S.of_regular trivial (by simp [type])) h

theorem meets_range {min max : Concrete} (hmin : min.Meets S) (hmax : max.Meets S) :
    (range min max).Meets S :=
  .intro (S.of_regular trivial (by simp [type]))
    (List.forall_mem_cons.mpr ⟨hmin, List.forall_mem_singleton.mpr hmax⟩)

theorem meets_page {sequence : Page Concrete} (h : ∀ x ∈ sequence.items, x.Meets S) :
    (page sequence).Meets S :=
  .intro (S.of_regular trivial (by simp [type])) h

theorem Meets.inner {annotations : List (String × Concrete)}
    (h : (annotated value annotations).Meets S) : value.Meets S :=
  h.part List.mem_cons_self

theorem Meets.notes {annotations : List (String × Concrete)}
    (h : (annotated value annotations).Meets S) : ∀ a ∈ annotations, a.2.Meets S :=
  fun _ ha => h.part (List.mem_cons_of_mem _ (List.mem_map_of_mem ha))

theorem Meets.unannotated (h : value.Meets S) : value.unannotated.Meets S := by
  cases value with
  | annotated inner annotations => exact h.inner
  | _ => exact h

theorem Meets.withNotes (h : value.Meets S) {notes : Dict String Concrete} (hsome : notes ≠ [])
    (hnotes : S.Notes notes) (hfree : ∀ a ∈ notes, a.1 ∉ reservedKeys)
    (hvalues : ∀ a ∈ notes, a.2.Meets S) : (value.withNotes notes).Meets S := by
  have hmade {inner : Concrete} {all : Dict String Concrete} (hinner : inner.Meets S)
      (hall : S.regular (annotated inner all)) (hparts : ∀ a ∈ all, a.2.Meets S) :
      (annotated inner all).Meets S :=
    .intro hall (List.forall_mem_cons.mpr ⟨hinner, List.forall_mem_map.mpr hparts⟩)
  have hnames (a) (ha : a ∈ notes) : S.name a.1 ∧ a.1 ∉ reservedKeys :=
    ⟨hnotes.names a ha, hfree a ha⟩
  cases value with
  | annotated inner existing =>
    obtain ⟨-, hsorted, hexisting, hplain⟩ := S.annotated_iff.mp h.here
    exact hmade h.inner (S.annotated_iff.mpr ⟨Dict.merge_ne_nil hsome, hsorted.merge notes,
      fun a ha => (Dict.mem_merge ha).elim (hexisting a) (hnames a), hplain⟩)
      fun a ha => (Dict.mem_merge ha).elim (h.notes a) (hvalues a)
  | _ =>
    exact hmade h (S.annotated_iff.mpr ⟨hsome, hnotes.sorted, hnames, by simp [type]⟩) hvalues

theorem Meets.annotate (h : value.Meets S) {notes : Dict String Concrete} (hnotes : S.Notes notes)
    (hvalues : ∀ a ∈ notes, a.2.Meets S) (hr : value.annotate notes = .ok result) :
    result.Meets S := by
  obtain ⟨hsome, hfree, rfl⟩ := annotate_eq_ok_iff.mp hr
  exact h.withNotes hsome hnotes hfree hvalues

theorem meets_annotateAll {notes : Dict String Concrete} (hnotes : S.Notes notes)
    (hvalues : ∀ a ∈ notes, a.2.Meets S) (h : ∀ x ∈ members, x.Meets S)
    (hr : annotateAll notes members = .ok results) : ∀ x ∈ results, x.Meets S := by
  intro y hy
  obtain ⟨x, hx, hxy⟩ := exists_mem_left (mapM_eq_ok hr) hy
  exact (h x hx).annotate hnotes hvalues hxy

theorem Meets.annotateSound (h : value.Meets S) {notes : Dict String Concrete}
    (hnotes : S.Notes notes) (hvalues : ∀ a ∈ notes, a.2.Meets S)
    (hr : value.annotateSound notes = .ok result) : result.Meets S := by
  unfold Concrete.annotateSound at hr
  split at hr
  · cases hr
    exact h
  · split at hr
    · cases hr
      exact h
    · exact h.annotate hnotes hvalues hr

/-! ### Taking values apart -/

theorem meets_ofLiteral {l : Literal} (h : l.IsReadable) : (ofLiteral l).Meets S := by
  cases l with
  | quantity q =>
    refine meets_of_atom (fun units hunits => ?_) rfl
    obtain ⟨magnitude, _⟩ := q
    cases hunits
    exact h
  | _ => exact meets_of_atom trivial rfl

theorem meets_ofChars (cs : List Char) : ∀ x ∈ ofChars cs, x.Meets S :=
  List.forall_mem_map.mpr fun _ _ => meets_string _

theorem Meets.items {value : Concrete} (h : value.Meets S) (hitems : value.items? = some members) :
    ∀ x ∈ members, x.Meets S := by
  match value with
  | string s =>
    cases hitems
    exact meets_ofChars _
  | list items =>
    cases hitems
    exact fun _ hx => h.part hx
  | .page sequence =>
    cases hitems
    exact fun _ hx => h.part hx
  | annotated inner annotations => exact h.inner.items hitems
  | null | boolean _ | integer _ | quantity _ | markdown _ | date _ | partialDate _ | entry _
  | property _ | entryType _ | range _ _ | graph _ | error _ => cases hitems

theorem Meets.slice (h : value.Meets S) {offset count : Nat}
    (hitems : value.slice? offset count = some members) : ∀ x ∈ members, x.Meets S := by
  obtain ⟨all, hall, rfl⟩ := Option.map_eq_some_iff.mp hitems
  exact fun x hx => h.items hall x (List.mem_of_mem_drop (List.mem_of_mem_take hx))

theorem Meets.convert (h : value.Meets S) {target : ValueType}
    (hr : value.convert? target = some result) : result.Meets S := by
  unfold convert? at hr
  split at hr
  · obtain ⟨magnitude, _, rfl⟩ := Option.map_eq_some_iff.mp hr
    exact meets_magnitude magnitude
  · cases hr; exact meets_string _
  · split at hr <;> cases hr
    exact meets_integer _
  all_goals cases hr
  all_goals first
    | exact meets_string _
    | exact meets_markdown _
    | exact meets_list (meets_ofChars _)
    | exact meets_page fun _ hx => h.part hx
    | exact meets_list fun _ hx => h.part hx

theorem Meets.candidates (h : value.Meets S) : ∀ x ∈ value.candidates, x.Meets S := by
  have hu := h.unannotated
  unfold Concrete.candidates
  split
  next => simp
  next min max heq =>
    rw [heq] at hu
    exact fun _ hx => hu.part hx
  next => exact List.forall_mem_singleton.mpr hu

theorem meets_bounds? {bounds : Option (Concrete × Concrete)} (h : ∀ x ∈ members, x.Meets S)
    (hr : bounds? members = .ok bounds) : ∀ b ∈ bounds, (range b.1 b.2).Meets S := by
  have hcandidates : ∀ c ∈ members.flatMap Concrete.candidates, c.Meets S := fun c hc => by
    obtain ⟨item, hitem, hc⟩ := List.mem_flatMap.mp hc
    exact (h item hitem).candidates c hc
  intro b hb
  obtain ⟨hmin, hmax⟩ := mem_bounds? hr b hb
  exact meets_range (hcandidates _ hmin) (hcandidates _ hmax)

theorem meets_readDate {s : String} (h : readDate s = .ok value) : value.Meets S := by
  have hread := readDate_dateText h
  obtain ⟨day | part, -, rfl⟩ := readDate_eq_ok_iff.mp h
  · exact meets_of_atom hread rfl
  · exact meets_of_atom hread rfl

/-! ### Attributes -/

theorem meets_textOrNull (s : String) : (textOrNull s).Meets S := by
  unfold textOrNull
  split
  · exact meets_null
  · exact meets_string s

theorem meets_entryAttribute? {record : EntryRecord} {name : String}
    (h : entryAttribute? record name = some result) : result.Meets S := by
  unfold entryAttribute? at h
  split at h <;> cases h
  all_goals first
    | exact meets_textOrNull _
    | exact meets_of_atom trivial rfl

theorem meets_elim {α : Type} (o : Option α) {f : α → Concrete} (h : ∀ a, (f a).Meets S) :
    (o.elim null f).Meets S := by
  cases o with
  | none => exact meets_null
  | some a => exact h a

theorem Meets.plainAttribute (h : value.Meets S) {name : String}
    (hr : value.plainAttribute? name = some result) : result.Meets S := by
  unfold plainAttribute? at hr
  split at hr <;> cases hr
  all_goals first
    | exact meets_magnitude _
    | exact meets_elim _ fun _ => meets_of_atom trivial rfl
    | exact meets_of_atom trivial rfl
    | exact h.part List.mem_cons_self
    | exact h.part (List.mem_cons_of_mem _ List.mem_cons_self)

end GraphExpr.Concrete
