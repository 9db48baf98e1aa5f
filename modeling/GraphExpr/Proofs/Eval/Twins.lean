import GraphExpr.Proofs.Eval.Comparison

/-! # Twins

Two values are twins if they are made the same way, known parts being equal. Twins may differ in
the caches of their scopes and in the buffers of their sorted sequences; what a buffer on the left
stands for on the right is remembered.
-/

namespace GraphExpr

/-- What is remembered of a state: the sorted sequences that its buffers stand for, and the users
whose its caches are. -/
structure Meanings where
  buffers : List Generator := []
  owners : List (Option UserId) := []

namespace Meanings

/-- There are only ever more buffers and caches. -/
structure Grows (w w' : Meanings) : Prop where
  buffers : w.buffers <+: w'.buffers
  owners : w.owners <+: w'.owners

def Tells (w : Meanings) (buffer : Nat) (g : Generator) : Prop :=
  w.buffers[buffer]? = some g

def Owns (w : Meanings) (cache : Nat) (user : Option UserId) : Prop :=
  w.owners[cache]? = some user

def withBuffer (w : Meanings) (g : Generator) : Meanings :=
  { w with buffers := w.buffers ++ [g] }

def withCache (w : Meanings) (user : Option UserId) : Meanings :=
  { w with owners := w.owners ++ [user] }

variable {w w' w'' : Meanings} {buffer cache : Nat} {g : Generator} {user : Option UserId}

theorem Grows.refl (w : Meanings) : w.Grows w :=
  ⟨List.prefix_refl _, List.prefix_refl _⟩

theorem Grows.trans (h : w.Grows w') (h' : w'.Grows w'') : w.Grows w'' :=
  ⟨h.buffers.trans h'.buffers, h.owners.trans h'.owners⟩

theorem grows_withBuffer (w : Meanings) (g : Generator) : w.Grows (w.withBuffer g) :=
  ⟨List.prefix_append _ _, List.prefix_refl _⟩

theorem grows_withCache (w : Meanings) (user : Option UserId) : w.Grows (w.withCache user) :=
  ⟨List.prefix_refl _, List.prefix_append _ _⟩

theorem Tells.mono (hw : w.Grows w') (h : w.Tells buffer g) : w'.Tells buffer g := by
  obtain ⟨more, hmore⟩ := hw.buffers
  have hlt : buffer < w.buffers.length := (List.getElem?_eq_some_iff.mp h).1
  unfold Tells
  rw [← hmore, List.getElem?_append_left hlt]
  exact h

theorem Owns.mono (hw : w.Grows w') (h : w.Owns cache user) : w'.Owns cache user := by
  obtain ⟨more, hmore⟩ := hw.owners
  have hlt : cache < w.owners.length := (List.getElem?_eq_some_iff.mp h).1
  unfold Owns
  rw [← hmore, List.getElem?_append_left hlt]
  exact h

theorem tells_last (w : Meanings) (g : Generator) (h : buffer = w.buffers.length) :
    (w.withBuffer g).Tells buffer g := by
  unfold Tells withBuffer
  rw [h, List.getElem?_concat_length]

theorem owns_last (w : Meanings) (user : Option UserId) (h : cache = w.owners.length) :
    (w.withCache user).Owns cache user := by
  unfold Owns withCache
  rw [h, List.getElem?_concat_length]

end Meanings

structure Idiom extends Realm where
  expr : Expr → Prop
  expr_literal : ∀ {id}, expr (.literal (.entry id)) → entry id
  expr_item : ∀ {items}, expr (.list items) → ∀ e ∈ items, expr e
  expr_object : ∀ {e name}, expr (.access e name) → expr e
  expr_positional : ∀ {f positional named}, expr (.call f positional named) →
    ∀ e ∈ positional, expr e
  expr_named : ∀ {f positional named}, expr (.call f positional named) → ∀ a ∈ named, expr a.2
  expr_builtin : ∀ {called positional named}, expr (.call (.builtin called) positional named) →
    builtin called
  expr_call : ∀ {f positional named}, expr (.call f positional named) → checked →
    Call.Accepted ⟨f, positional, named⟩ := by
      intros
      exact False.elim (by assumption)
  expr_body : ∀ {parameter body}, expr (.lambda parameter body) → expr body
  expr_stored : ∀ {text e}, environment.graph.Stores text →
    Expr.parse environment.registry text = .ok e → expr e

structure Frame extends Idiom where
  /-- Whether the caches of scopes on the left are those of their users. -/
  owned : Prop
  /-- Where calls have been checked, all services answer. -/
  services : checked → ∀ service, environment.outage service = none := by
    intros
    exact False.elim (by assumption)
  expr_source : ∀ {e at?}, expr e → (∀ id ∈ at?, entry id) → source ⟨e, at?⟩
  page_any : ∀ {p s}, page p s := by
    intros
    trivial

section

variable (F : Frame) (w : Meanings)

mutual

/-- Values that are made the same way. -/
inductive Value.Twin : Value → Value → Prop where
  | concrete {a : Concrete} : a.Within F.allowed → Value.Twin (.concrete a) (.concrete a)
  | entrySet {set : EntrySet} : F.fragment set.fragment → (∀ s ∈ set.source, F.source s) →
      Value.Twin (.entrySet set) (.entrySet set)
  | iterable {g g' : Generator} {pageSize : Nat} {source : Option Source} :
      Generator.Twin g g' → (∀ s ∈ source, F.source s) →
      Value.Twin (.iterable g pageSize source) (.iterable g' pageSize source)

inductive Generator.Twin : Generator → Generator → Prop where
  | mapped {v v' : Value} {parameter : String} {body : Expr} {c d : Context} :
      Value.Twin v v' → F.expr (.lambda parameter body) → Scope.Twin c d →
      Generator.Twin (.mapped v ⟨parameter, body⟩ c) (.mapped v' ⟨parameter, body⟩ d)
  | sorted {v v' : Value} {key : Option Lambda} {descending : Bool} {c d : Context}
      {buffer buffer' : Nat} :
      Value.Twin v v' → (∀ l : Lambda, key = some l → F.expr (.lambda l.parameter l.body)) →
      Scope.Twin c d → w.Tells buffer (.sorted v' key descending d buffer') →
      Generator.Twin (.sorted v key descending c buffer) (.sorted v' key descending d buffer')
  | annotated {v v' : Value} {annotations : List (String × Concrete)} :
      Value.Twin v v' → (∀ x ∈ annotations, x.2.Within F.allowed) →
      Generator.Twin (.annotated v annotations) (.annotated v' annotations)
  | detailed {set : EntrySet} {property : PropertyRecord} {c d : Context} :
      F.fragment set.fragment → F.relation property → Scope.Twin c d →
      Generator.Twin (.detailed set property c) (.detailed set property d)

/-- Scopes of one subject with the same current entry, whose variables are twins. -/
inductive Scope.Twin : Context → Context → Prop where
  | mk {c d : Context} : F.Peers c d → (∀ id ∈ d.entry, F.entry id) →
      (F.owned → w.Owns c.cache c.user) → Bindings.Twin c.bindings d.bindings → Scope.Twin c d

inductive Bindings.Twin : List (String × Value) → List (String × Value) → Prop where
  | nil : Bindings.Twin [] []
  | cons {name : String} {v v' : Value} {bindings bindings' : List (String × Value)} :
      Value.Twin v v' → Bindings.Twin bindings bindings' →
      Bindings.Twin ((name, v) :: bindings) ((name, v') :: bindings')

end

end

section

variable {F : Frame} {w w' : Meanings}

/-! ### More sequences -/

mutual

theorem Value.Twin.mono (hw : w.Grows w') : ∀ {v v' : Value}, v.Twin F w v' → v.Twin F w' v'
  | _, _, .concrete ha => .concrete ha
  | _, _, .entrySet hset hsource => .entrySet hset hsource
  | _, _, .iterable hg hsource => .iterable (hg.mono hw) hsource

theorem Generator.Twin.mono (hw : w.Grows w') :
    ∀ {g g' : Generator}, g.Twin F w g' → g.Twin F w' g'
  | _, _, .mapped hv he hs => .mapped (hv.mono hw) he (hs.mono hw)
  | _, _, .sorted hv he hs hb => .sorted (hv.mono hw) he (hs.mono hw) (hb.mono hw)
  | _, _, .annotated hv ha => .annotated (hv.mono hw) ha
  | _, _, .detailed hset hp hs => .detailed hset hp (hs.mono hw)

theorem Scope.Twin.mono (hw : w.Grows w') :
    ∀ {c d : Context}, Scope.Twin F w c d → Scope.Twin F w' c d
  | _, _, .mk hpeers hentry ho hb =>
    .mk hpeers hentry (fun howned => (ho howned).mono hw) (hb.mono hw)

theorem Bindings.Twin.mono (hw : w.Grows w') : ∀ {b b' : List (String × Value)},
    Bindings.Twin F w b b' → Bindings.Twin F w' b b'
  | _, _, .nil => .nil
  | _, _, .cons hv hb => .cons (hv.mono hw) (hb.mono hw)

end

/-! ### More that may occur -/

/-- In a frame at least what may occur in another one may occur. -/
structure Frame.Widens (F G : Frame) : Prop where
  subject : ∀ {site user pageSize}, F.subject site user pageSize → G.subject site user pageSize
  allowed : ∀ {a : Concrete}, a.Within F.allowed → a.Within G.allowed
  entry : ∀ {id}, F.entry id → G.entry id
  source : ∀ {s}, F.source s → G.source s
  fragment : ∀ {f}, F.fragment f → G.fragment f
  relation : ∀ {property}, F.relation property → G.relation property
  expr : ∀ {e}, F.expr e → G.expr e
  owned : G.owned → F.owned

variable {G : Frame}

theorem Frame.Widens.peers (h : F.Widens G) {c d : Context} (hpeers : F.Peers c d) : G.Peers c d :=
  ⟨hpeers.toSame, h.subject hpeers.subject⟩

mutual

theorem Value.Twin.widen (h : F.Widens G) : ∀ {v v' : Value}, v.Twin F w v' → v.Twin G w v'
  | _, _, .concrete ha => .concrete (h.allowed ha)
  | _, _, .entrySet hset hsource => .entrySet (h.fragment hset) fun s hs => h.source (hsource s hs)
  | _, _, .iterable hg hsource => .iterable (hg.widen h) fun s hs => h.source (hsource s hs)

theorem Generator.Twin.widen (h : F.Widens G) :
    ∀ {g g' : Generator}, g.Twin F w g' → g.Twin G w g'
  | _, _, .mapped hv he hs => .mapped (hv.widen h) (h.expr he) (hs.widen h)
  | _, _, .sorted hv he hs hb =>
    .sorted (hv.widen h) (fun l hl => h.expr (he l hl)) (hs.widen h) hb
  | _, _, .annotated hv ha => .annotated (hv.widen h) fun x hx => h.allowed (ha x hx)
  | _, _, .detailed hset hp hs => .detailed (h.fragment hset) (h.relation hp) (hs.widen h)

theorem Scope.Twin.widen (h : F.Widens G) :
    ∀ {c d : Context}, Scope.Twin F w c d → Scope.Twin G w c d
  | _, _, .mk hpeers hentry ho hb =>
    .mk (h.peers hpeers) (fun id hid => h.entry (hentry id hid)) (fun howned => ho (h.owned howned))
      (hb.widen h)

theorem Bindings.Twin.widen (h : F.Widens G) : ∀ {b b' : List (String × Value)},
    Bindings.Twin F w b b' → Bindings.Twin G w b b'
  | _, _, .nil => .nil
  | _, _, .cons hv hb => .cons (hv.widen h) (hb.widen h)

end

namespace Bindings.Twin

variable {b b' : List (String × Value)} (h : Bindings.Twin F w b b')

include h

theorem insert (name : String) {v v' : Value} (hv : v.Twin F w v') :
    Bindings.Twin F w (Dict.insert b name v) (Dict.insert b' name v') := by
  induction b generalizing b' with
  | nil =>
    cases h
    exact .cons hv .nil
  | cons x b ih =>
    obtain ⟨name', u⟩ := x
    cases h with
    | @cons _ _ u' _ b' hu hb =>
      unfold Dict.insert
      split
      · exact .cons hv (.cons hu hb)
      · exact .cons hv hb
      · exact .cons hu (ih hb)

theorem find? (name : String) :
    (Dict.find? b name = none ∧ Dict.find? b' name = none) ∨
      ∃ v v', Dict.find? b name = some v ∧ Dict.find? b' name = some v' ∧ v.Twin F w v' := by
  induction b generalizing b' with
  | nil =>
    cases h
    exact .inl ⟨rfl, rfl⟩
  | cons x b ih =>
    obtain ⟨name', u⟩ := x
    cases h with
    | @cons _ _ u' _ b' hu hb =>
      unfold Dict.find?
      split
      · exact .inr ⟨u, u', rfl, rfl, hu⟩
      · exact ih hb

theorem merge {added : List (String × Value × Value)}
    (hadded : ∀ x ∈ added, x.2.1.Twin F w x.2.2) :
    Bindings.Twin F w (Dict.merge b (added.map fun x => (x.1, x.2.1)))
      (Dict.merge b' (added.map fun x => (x.1, x.2.2))) := by
  induction added generalizing b b' with
  | nil => exact h
  | cons x added ih =>
    obtain ⟨hx, hrest⟩ := List.forall_mem_cons.mp hadded
    exact ih (h.insert x.1 hx) hrest

theorem isEmpty_eq : b.isEmpty = b'.isEmpty := by
  cases h <;> rfl

end Bindings.Twin

namespace Scope.Twin

variable {c d : Context} (h : Scope.Twin F w c d)

include h

theorem peers : F.Peers c d := by
  cases h
  assumption

theorem entry : ∀ id ∈ d.entry, F.entry id := by
  cases h
  assumption

theorem owns (howned : F.owned) : w.Owns c.cache c.user := by
  obtain ⟨-, -, ho, -⟩ := h
  exact ho howned

theorem entryScope {id : EntryId} (hid : F.entry id) :
    Scope.Twin F w (c.entryScope id) (d.entryScope id) := by
  obtain ⟨⟨hsame, hsubject⟩, -, ho, -⟩ := h
  refine .mk ⟨⟨hsame.site, hsame.user, rfl, hsame.pageSize⟩, hsubject⟩ ?_ ho .nil
  rintro _ ⟨⟩
  exact hid

theorem forEntry {id : EntryId} (hid : F.entry id) :
    Scope.Twin F w (c.forEntry id) (d.forEntry id) := by
  obtain ⟨⟨hsame, hsubject⟩, -, ho, hb⟩ := h
  refine .mk ⟨⟨hsame.site, hsame.user, rfl, hsame.pageSize⟩, hsubject⟩ ?_ ho hb
  rintro _ ⟨⟩
  exact hid

theorem bind (name : String) {v v' : Value} (hv : v.Twin F w v') :
    Scope.Twin F w { c with bindings := Dict.merge c.bindings [(name, v)] }
      { d with bindings := Dict.merge d.bindings [(name, v')] } := by
  obtain ⟨⟨hsame, hsubject⟩, hentry, ho, hb⟩ := h
  exact .mk ⟨⟨hsame.site, hsame.user, hsame.entry, hsame.pageSize⟩, hsubject⟩ hentry ho
    (hb.insert name hv)

theorem withCaches {cache : Nat} (hcache : F.owned → w.Owns cache c.user) (cache' : Nat) :
    Scope.Twin F w { c with cache } { d with cache := cache' } := by
  obtain ⟨⟨hsame, hsubject⟩, hentry, -, hb⟩ := h
  exact .mk ⟨⟨hsame.site, hsame.user, hsame.entry, hsame.pageSize⟩, hsubject⟩ hentry hcache hb

theorem withVariables {c' : Context} {added : List (String × Value)} {f : String × Value → Value}
    (hadded : ∀ x ∈ added, x.2.Twin F w (f x)) (hc : c.withVariables added = .ok c') :
    Scope.Twin F w c'
      { d with bindings := Dict.merge d.bindings (added.map fun x => (x.1, f x)) } := by
  unfold Scope.withVariables at hc
  split at hc
  · cases hc
  · cases hc
    obtain ⟨⟨hsame, hsubject⟩, hentry, ho, hb⟩ := h
    have hpairs : ∀ x ∈ added.map fun x => (x.1, x.2, f x), x.2.1.Twin F w x.2.2 :=
      List.forall_mem_map.mpr hadded
    have hmerged := hb.merge hpairs
    simp only [List.map_map, Function.comp_def, Prod.eta, List.map_id'] at hmerged
    exact .mk ⟨⟨hsame.site, hsame.user, hsame.entry, hsame.pageSize⟩, hsubject⟩ hentry ho hmerged

theorem withUser {user : Option UserId} (hsubject : F.subject d.site user d.pageSize) {cache : Nat}
    (hcache : F.owned → w.Owns cache user) :
    Scope.Twin F w ({ c with cache }.withUser user) (d.withUser user) := by
  obtain ⟨⟨hsame, -⟩, hentry, -, hb⟩ := h
  exact .mk ⟨⟨hsame.site, rfl, hsame.entry, hsame.pageSize⟩, hsubject⟩ hentry hcache hb

theorem source {e : Expr} (he : F.expr e) : F.source ⟨e, c.entry⟩ := by
  obtain ⟨⟨hsame, -⟩, hentry, -, -⟩ := h
  rw [hsame.entry]
  exact F.expr_source he hentry

end Scope.Twin

theorem Scope.Twin.root {config : Config} {site : SiteId} {user : Option UserId}
    {entry : Option EntryId} (hsubject : F.subject site user config.pageSize)
    (hentry : ∀ id ∈ entry, F.entry id) (s : EvalState)
    (hcache : F.owned → w.Owns s.caches.size user) :
    Scope.Twin F w (Context.root config site user entry s).1
      (Context.root config site user entry s).1 :=
  .mk ⟨⟨rfl, rfl, rfl, rfl⟩, hsubject⟩ hentry hcache .nil

theorem Value.Twin.withSource {v v' : Value} (h : v.Twin F w v') {source : Source}
    (hs : F.source source) :
    (v.withDefaultSource source).Twin F w (v'.withDefaultSource source) := by
  have hsome : ∀ s ∈ some source, F.source s := by simpa using hs
  unfold Value.withDefaultSource
  cases h with
  | concrete ha => exact .concrete ha
  | @entrySet set hset hsource =>
    split
    · exact .entrySet hset hsome
    · exact .entrySet hset hsource
  | @iterable g g' pageSize source' hg hsource =>
    cases source' with
    | none => exact .iterable hg hsome
    | some _ => exact .iterable hg hsource

theorem Value.Twin.isSorted {v v' : Value} (h : v.Twin F w v') (hs : v'.IsSorted) : v.IsSorted := by
  cases h with
  | concrete => exact hs
  | entrySet => exact hs
  | iterable hg =>
    cases hg with
    | mapped => exact hs
    | sorted => trivial
    | annotated => exact hs
    | detailed => exact hs

theorem Value.Twin.sorted_of {v v' : Value} (h : v.Twin F w v') (hs : v.IsSorted) :
    ∃ inner inner' key descending c d buffer buffer' pageSize source,
      v = .iterable (.sorted inner key descending c buffer) pageSize source ∧
      v' = .iterable (.sorted inner' key descending d buffer') pageSize source ∧
      inner.Twin F w inner' ∧ (∀ l : Lambda, key = some l → F.expr (.lambda l.parameter l.body)) ∧
      Scope.Twin F w c d ∧ w.Tells buffer (.sorted inner' key descending d buffer') := by
  cases h with
  | concrete => exact hs.elim
  | entrySet => exact hs.elim
  | iterable hg =>
    cases hg with
    | mapped => exact hs.elim
    | annotated => exact hs.elim
    | detailed => exact hs.elim
    | sorted hv he hscope hb =>
      exact ⟨_, _, _, _, _, _, _, _, _, _, rfl, rfl, hv, he, hscope, hb⟩

end

def Frame.relations (F : Frame) : Relations where
  toRealm := F.toRealm
  World := Meanings
  Extends := Meanings.Grows
  value w v v' := v.Twin F w v'
  scope w e c d := F.expr e ∧ Scope.Twin F w c d
  refl := Meanings.Grows.refl
  trans := Meanings.Grows.trans
  value_mono hw h := h.mono hw
  scope_mono hw h := ⟨h.1, h.2.mono hw⟩
  value_linked h := by
    cases h with
    | concrete ha => exact .concrete ha
    | entrySet hset hsource => exact .entrySet hset hsource
    | iterable hg hsource =>
      refine .iterable ?_ hsource
      cases hg with
      | mapped hv he hs => exact .mapped hv ⟨he, hs⟩
      | sorted hv he hs _ => exact .sorted hv fun l hl => ⟨he l hl, hs⟩
      | annotated hv ha => exact .annotated hv ha
      | detailed hset hp hs => exact .detailed hset hp hs.peers
  value_concrete ha := .concrete ha
  value_entrySet hset hsource := .entrySet hset (by simp [hsource])
  value_mapped hv hs _ := .iterable (.mapped hv hs.1 hs.2) (by simp)
  value_annotated hv ha _ := .iterable (.annotated hv ha) (by simp)
  value_detailed hset hp hs _ := .iterable (.detailed hset hp hs.2) (by simp)
  scope_peers h := h.2.peers
  scope_literal h := F.expr_literal h.1
  scope_this {w c d} h id hid := by
    obtain ⟨-, ⟨hsame, -⟩, hentry, -, -⟩ := h
    exact hentry id (hsame.entry ▸ hid)
  scope_var {w name c d} h := by
    obtain ⟨-, -, -, -, hb⟩ := h
    exact hb.find? name
  scope_item h e he := ⟨F.expr_item h.1 e he, h.2⟩
  scope_object h := ⟨F.expr_object h.1, h.2⟩
  scope_positional h e he := ⟨F.expr_positional h.1 e he, h.2⟩
  scope_named h a ha := ⟨F.expr_named h.1 a ha, h.2⟩
  scope_builtin h := F.expr_builtin h.1
  scope_call h := F.expr_call h.1
  scope_apply h hx := ⟨F.expr_body h.1, h.2.bind _ (.concrete hx)⟩
  scope_stored h hid htext hparse := ⟨F.expr_stored htext hparse, h.2.entryScope hid⟩

end GraphExpr
