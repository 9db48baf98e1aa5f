import GraphExpr.Proofs.Canonical.Keys
import GraphExpr.Proofs.Eval.Limits
import GraphExpr.Proofs.Eval.Plain
import GraphExpr.Proofs.Eval.Twins
import GraphExpr.Proofs.Graph.Policy

/-! # What a state knows

Users evaluate expressions in scopes of their own. A state is truthful if what it has cached and
sorted is what plain evaluation gives. This makes sense as the name under which a result is cached
tells the entry and the expression, and as each cache has one user.
-/

namespace GraphExpr

/-- One subject in a graph whose entries can be written in references, with functions that are
found under their own names. -/
structure Setting where
  environment : Environment
  site : SiteId
  user : Option UserId
  pageSize : Nat
  named : environment.registry.Named
  within : environment.graph.Within fun id => Token.IsReferenceId id.text

namespace Setting

variable (setting : Setting)

abbrev Readable (e : Expr) : Prop :=
  Expr.Formed Literal.IsReadable setting.environment.registry e

def referable : Allowance :=
  { entry := fun id => Token.IsReferenceId id.text
    source := fun _ => True }

theorem view_reference {subject : Subject} {id : EntryId}
    (h : setting.environment.graph.hasPermission subject .viewEntry (.entry id) = true) :
    Token.IsReferenceId id.text := by
  obtain ⟨record, hrecord⟩ := Graph.has_of_hasPermission h
  exact setting.within.keys _ (Dict.mem_of_find? hrecord)

theorem rows_within {q : Query} (hf : q.fragment.Sound) :
    ∀ row ∈ setting.environment.graph.execute q,
      Row.Within referable q.fragment.annotations row :=
  Graph.within_execute hf (setting.within.tells q.fragment)

def base (entry : Option EntryId) : Context :=
  ⟨setting.site, setting.user, entry, setting.pageSize, [], 0⟩

/-! ### Names of results -/

/-- The name under which the result of an expression is cached for an entry, or for none. -/
structure Keyed (key : String) (entry : Option EntryId) (e : Expr) : Prop where
  reference : ∀ id ∈ entry, Token.IsReferenceId id.text
  readable : setting.Readable e
  key : key = entry.elim "" Id.text ++ ":" ++ e.canonical

variable {setting} {key : String} {entry entry' : Option EntryId} {e e' : Expr}

theorem not_overruns {id : String} (h : ∀ id ∈ entry, Token.IsReferenceId id.text) :
    ¬ Text.Overruns id (entry.elim "" Id.text) := by
  rintro ⟨cs, hcs, -⟩
  have hcolon : ':' ∈ (entry.elim "" Id.text).toList := by simp [hcs]
  cases entry with
  | none => simp at hcolon
  | some id' => exact absurd ((h id' rfl).2 ':' hcolon) (by decide)

theorem Keyed.unique (h : setting.Keyed key entry e) (h' : setting.Keyed key entry' e') :
    entry = entry' ∧ e = e' :=
  h.readable.eq_of_key h'.readable (fun id hid => (h.reference id hid).1)
    (fun id hid => (h'.reference id hid).1) (not_overruns h'.reference) (not_overruns h.reference)
    (h.key.symm.trans h'.key)

variable (setting)

def Gives (entry : Option EntryId) (e : Expr) (u : Value) : Prop :=
  ∃ nesting levels, (Evaluator.plain nesting levels).evaluate (setting.base entry) e
    setting.environment {} = some (.ok u, {})

end Setting

/-! ### Several users -/

/-- Users of a graph whose entries can be written in references, with functions that are found
under their own names. -/
structure Forum where
  environment : Environment
  site : SiteId
  users : Option UserId → Prop
  pageSize : Nat
  named : environment.registry.Named
  within : environment.graph.Within fun id => Token.IsReferenceId id.text

namespace Forum

variable (forum : Forum)

def as (user : Option UserId) : Setting :=
  ⟨forum.environment, forum.site, user, forum.pageSize, forum.named, forum.within⟩

def sole (user : Option UserId) : Forum :=
  { forum with users := (· = user) }

abbrev Readable (e : Expr) : Prop :=
  Expr.Formed Literal.IsReadable forum.environment.registry e

def frame : Frame where
  environment := forum.environment
  graph := forum.environment.graph
  subject site user pageSize := site = forum.site ∧ forum.users user ∧ pageSize = forum.pageSize
  entry := Setting.referable.entry
  source := Setting.referable.source
  fragment := Fragment.Sound
  relation _ := True
  builtin _ := True
  owned := True
  expr := forum.Readable
  concurs _ := .refl _ _
  view _ h := (forum.as none).view_reference h
  relation_of _ _ _ _ := trivial
  resolved _ _ _ _ := rfl
  sketch _ _ _ := rfl
  closed _ := Fragment.closed_sound
  rows_eq _ := rfl
  rows_within := (forum.as none).rows_within
  expr_source _ _ := trivial
  expr_literal h := by
    cases h
    assumption
  expr_item h := by
    cases h
    assumption
  expr_object h := by
    cases h
    assumption
  expr_positional h := by
    cases h
    assumption
  expr_named h := by
    cases h
    assumption
  expr_builtin _ := trivial
  expr_body h := by
    cases h
    assumption
  expr_stored _ h := Expr.readable_of_parse forum.named h

variable {forum} {w w' w'' : Meanings} {s s' s'' : EvalState} {user : Option UserId}

theorem widens {users : Option UserId → Prop} (h : ∀ user, users user → forum.users user) :
    Frame.Widens { forum with users }.frame forum.frame where
  subject hsubject := ⟨hsubject.1, h _ hsubject.2.1, hsubject.2.2⟩
  allowed ha := ha
  entry hid := hid
  source hs := hs
  fragment hf := hf
  relation hp := hp
  expr he := he
  owned howned := howned

/-- Without variables nobody but the user of a scope has a part in it. -/
theorem twin_sole {c d : Context} (h : Scope.Twin forum.frame w c d)
    (hempty : c.bindings.isEmpty = true) : Scope.Twin (forum.sole c.user).frame w c d := by
  obtain ⟨⟨hsame, hsite, -, hsize⟩, hentry, howned, hb⟩ := h
  have hc := List.isEmpty_iff.mp hempty
  have hd := List.isEmpty_iff.mp (hb.isEmpty_eq ▸ hempty)
  refine .mk ⟨hsame, hsite, hsame.user.symm, hsize⟩ hentry howned ?_
  rw [hc, hd]
  exact .nil

theorem base_eq_of_twin {c d : Context} (h : Scope.Twin forum.frame w c d)
    (hempty : c.bindings.isEmpty = true) :
    (forum.as c.user).base d.entry = { d with cache := 0 } := by
  obtain ⟨⟨hsame, hsite, -, hsize⟩, -, -, hb⟩ := h
  rw [hb.isEmpty_eq] at hempty
  unfold Setting.base as
  rw [← hsite, hsame.user, ← hsize, ← List.isEmpty_iff.mp hempty]

variable (forum)

/-! ### Truthful states -/

def Sorts (inner : Value) (key : Option Lambda) (descending : Bool) (scope : Context)
    (items : List Concrete) : Prop :=
  inner.size forum.environment = .ok items.length ∧ (∀ x ∈ items, x.Within Setting.referable) ∧
    ∃ nesting levels t, (Evaluator.plain nesting levels).sortAll inner key descending scope
      forum.environment {} = some (.ok items, t)

def Names (w : Meanings) (user : Option UserId) (key : String) (v : Value) : Prop :=
  ∃ entry e u, (forum.as user).Keyed key entry e ∧ (forum.as user).Gives entry e u ∧
    v.Twin (forum.sole user).frame w u

/-- A state whose cached results and sorted items are those that plain evaluation gives. -/
structure Truthful (w : Meanings) (s : EvalState) : Prop where
  prepared : s.prepared = []
  buffers : s.buffers.size = w.buffers.length
  owners : s.caches.size = w.owners.length
  sorted : ∀ buffer items, s.buffers[buffer]? = some (some items) →
    ∃ inner key descending scope buffer',
      w.Tells buffer (.sorted inner key descending scope buffer') ∧
      forum.Sorts inner key descending scope items
  caches : ∀ cache key v, s.cached? cache key = some v →
    ∃ user, w.Owns cache user ∧ forum.Names w user key v

/-- A state from which evaluations may be nested as often as the number says, and in which no
evaluation is in progress that plain evaluation would finish for one of the users with as many
nested evaluations and the other number of levels. -/
structure Room (nesting levels : Nat) (s : EvalState) : Prop where
  depth : s.depth + nesting ≤ forum.environment.config.evaluationDepth
  inProgress : ∀ key ∈ s.inProgress, ∃ entry e, ∀ user, forum.users user →
    (forum.as user).Keyed key entry e ∧
      (Evaluator.plain nesting levels).evaluate ((forum.as user).base entry) e
        forum.environment {} = none

/-- What a computation may do to a state: it learns what is true, and the caches that it makes are
those of the users. -/
structure Leads (w : Meanings) (s : EvalState) (w' : Meanings) (s' : EvalState) : Prop where
  grown : w.Grows w'
  truthful : forum.Truthful w' s'
  owners : ∀ user ∈ w'.owners, user ∈ w.owners ∨ forum.users user
  depth : s'.depth = s.depth
  inProgress : s'.inProgress = s.inProgress

variable {forum} {nesting nesting' levels levels' : Nat}

theorem Names.mono (h : forum.Names w user key v) (hw : w.Grows w') :
    forum.Names w' user key v := by
  obtain ⟨entry, e, u, hkeyed, hgives, htwin⟩ := h
  exact ⟨entry, e, u, hkeyed, hgives, htwin.mono hw⟩

theorem Truthful.leads (h : forum.Truthful w s) : forum.Leads w s w s :=
  ⟨.refl w, h, fun _ huser => .inl huser, rfl, rfl⟩

theorem Truthful.executed (h : forum.Truthful w s) (query : Query) :
    forum.Leads w s w { s with executed := query :: s.executed } :=
  ⟨.refl w, ⟨h.prepared, h.buffers, h.owners, h.sorted, h.caches⟩, fun _ huser => .inl huser, rfl,
    rfl⟩

theorem Leads.trans (h : forum.Leads w s w' s') (h' : forum.Leads w' s' w'' s'') :
    forum.Leads w s w'' s'' where
  grown := h.grown.trans h'.grown
  truthful := h'.truthful
  owners user huser := (h'.owners user huser).elim (h.owners user) .inr
  depth := h'.depth.trans h.depth
  inProgress := h'.inProgress.trans h.inProgress

theorem Leads.widen {users : Option UserId → Prop} (h : { forum with users }.Leads w s w' s')
    (husers : ∀ user, users user → forum.users user) : forum.Leads w s w' s' :=
  ⟨h.grown, ⟨h.truthful.prepared, h.truthful.buffers, h.truthful.owners, h.truthful.sorted,
    h.truthful.caches⟩, fun user huser => (h.owners user huser).imp_right (husers user), h.depth,
    h.inProgress⟩

theorem Leads.room (h : forum.Leads w s w' s') (hr : forum.Room nesting levels s) :
    forum.Room nesting levels s' where
  depth := by
    rw [h.depth]
    exact hr.depth
  inProgress := by
    rw [h.inProgress]
    exact hr.inProgress

theorem plain_none_mono {c : Context} {e : Expr} {environment : Environment}
    (hn : nesting ≤ nesting') (hl : levels ≤ levels')
    (h : (Evaluator.plain nesting' levels').evaluate c e environment s = none) :
    (Evaluator.plain nesting levels).evaluate c e environment s = none := by
  cases hrun : (Evaluator.plain nesting levels).evaluate c e environment s with
  | none => rfl
  | some r =>
    rw [Evaluator.plain_evaluate_mono hn hl hrun] at h
    cases h

theorem Room.mono (h : forum.Room nesting' levels' s) (hn : nesting ≤ nesting')
    (hl : levels ≤ levels') : forum.Room nesting levels s where
  depth := by
    have hdepth := h.depth
    omega
  inProgress key hkey := by
    obtain ⟨entry, e, hnone⟩ := h.inProgress key hkey
    refine ⟨entry, e, fun user huser => ?_⟩
    obtain ⟨hkeyed, hnone⟩ := hnone user huser
    exact ⟨hkeyed, plain_none_mono hn hl hnone⟩

theorem Room.sole (h : forum.Room nesting levels s) (huser : forum.users user) :
    (forum.sole user).Room nesting levels s where
  depth := h.depth
  inProgress key hkey := by
    obtain ⟨entry, e, hnone⟩ := h.inProgress key hkey
    refine ⟨entry, e, ?_⟩
    rintro _ rfl
    exact hnone _ huser

namespace Truthful

variable (h : forum.Truthful w s)

include h

theorem sole (user : Option UserId) : (forum.sole user).Truthful w s :=
  ⟨h.prepared, h.buffers, h.owners, h.sorted, h.caches⟩

theorem withCache (user : Option UserId) : forum.Truthful (w.withCache user) s.withCache where
  prepared := h.prepared
  buffers := h.buffers
  owners := by simp [EvalState.withCache, Meanings.withCache, h.owners]
  sorted := h.sorted
  caches cache key v hv := by
    rw [EvalState.cached?_withCache] at hv
    obtain ⟨owner, howner, hnames⟩ := h.caches cache key v hv
    have hw := w.grows_withCache user
    exact ⟨owner, howner.mono hw, hnames.mono hw⟩

theorem withBuffer (g : Generator) :
    forum.Truthful (w.withBuffer g) { s with buffers := s.buffers.push none } where
  prepared := h.prepared
  buffers := by simp [Meanings.withBuffer, h.buffers]
  owners := h.owners
  sorted buffer items hitems := by
    obtain ⟨inner, key, descending, scope, buffer', htells, hsorts⟩ :=
      h.sorted buffer items (EvalState.getElem?_of_push hitems)
    have hw := w.grows_withBuffer g
    exact ⟨inner, key, descending, scope, buffer', htells.mono hw, hsorts⟩
  caches cache key v hv := by
    obtain ⟨owner, howner, hnames⟩ := h.caches cache key v hv
    have hw := w.grows_withBuffer g
    exact ⟨owner, howner.mono hw, hnames.mono hw⟩

theorem enter (depth : Nat) (inProgress : List String) :
    forum.Truthful w { s with depth, inProgress } :=
  ⟨h.prepared, h.buffers, h.owners, h.sorted, h.caches⟩

theorem fill {buffer buffer' : Nat} {inner : Value} {key : Option Lambda} {descending : Bool}
    {scope : Context} (htells : w.Tells buffer (.sorted inner key descending scope buffer'))
    {o : Except Error (List Concrete)}
    (ho : ∀ items, o = .ok items → forum.Sorts inner key descending scope items) :
    forum.Truthful w (s.fill buffer o) where
  prepared := by simp [h.prepared]
  buffers := by simp [h.buffers]
  owners := by simp [h.owners]
  sorted buffer₁ items hitems := by
    rcases EvalState.getElem?_fill hitems with ⟨rfl, hok⟩ | hold
    · exact ⟨inner, key, descending, scope, buffer', htells, ho items hok⟩
    · exact h.sorted buffer₁ items hold
  caches cache key v hv := by
    rw [EvalState.cached?_fill] at hv
    exact h.caches cache key v hv

theorem finish {cache : Nat} {key : Option String} {o : Except Error Value}
    (ho : ∀ k v, key = some k → o = .ok v → ∃ user, w.Owns cache user ∧ forum.Names w user k v) :
    forum.Truthful w (s.finish cache key o) where
  prepared := by simp [h.prepared]
  buffers := by simp [h.buffers]
  owners := by simp [h.owners]
  sorted buffer items hitems := by
    rw [EvalState.finish_buffers] at hitems
    exact h.sorted buffer items hitems
  caches cache' k v hv := by
    rcases EvalState.cached?_finish hv with ⟨rfl, hkey, hok⟩ | hold
    · exact ho k v hkey hok
    · exact h.caches cache' k v hold

end Truthful

theorem Leads.withCache (h : forum.Truthful w s) (huser : forum.users user) :
    forum.Leads w s (w.withCache user) s.withCache where
  grown := w.grows_withCache user
  truthful := h.withCache user
  owners other hother := by
    rcases List.mem_append.mp hother with hold | hnew
    · exact .inl hold
    · exact .inr (List.mem_singleton.mp hnew ▸ huser)
  depth := rfl
  inProgress := rfl

theorem Leads.withBuffer (h : forum.Truthful w s) (g : Generator) :
    forum.Leads w s (w.withBuffer g) { s with buffers := s.buffers.push none } where
  grown := w.grows_withBuffer g
  truthful := h.withBuffer g
  owners _ huser := .inl huser
  depth := rfl
  inProgress := rfl

theorem Leads.finish {cache : Nat} {key : Option String} {o : Except Error Value}
    (h : forum.Leads w
      { s with depth := s.depth + 1, inProgress := key.toList ++ s.inProgress } w' s')
    (ho : ∀ k v, key = some k → o = .ok v → ∃ user, w'.Owns cache user ∧ forum.Names w' user k v) :
    forum.Leads w s w' (s'.finish cache key o) where
  grown := h.grown
  truthful := h.truthful.finish ho
  owners := h.owners
  depth := by
    rw [EvalState.finish_depth, h.depth]
    rfl
  inProgress := by
    rw [EvalState.finish_inProgress, h.inProgress]
    cases key with
    | none => rfl
    | some key => exact List.erase_cons_head key s.inProgress

end Forum

def Setting.forum (setting : Setting) : Forum :=
  ⟨setting.environment, setting.site, (· = setting.user), setting.pageSize, setting.named,
    setting.within⟩

end GraphExpr
