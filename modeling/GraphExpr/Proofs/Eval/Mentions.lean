import GraphExpr.Expr

/-! # What occurs in expressions

An expression mentions the entries that its constants name, wherever in it they stand, and calls
the functions that any of its parts calls.
-/

namespace GraphExpr.Expr

mutual

/-- The entries that constants of an expression name. -/
def mentions : Expr → List EntryId
  | literal (.entry id) => [id]
  | literal _ => []
  | list items => mentionsOf items
  | this => []
  | var _ => []
  | lambda _ body => mentions body
  | access object _ => mentions object
  | call _ none named => mentionsOfNamed named
  | call _ (some positional) named => mentions positional ++ mentionsOfNamed named

def mentionsOf : List Expr → List EntryId
  | [] => []
  | e :: rest => mentions e ++ mentionsOf rest

def mentionsOfNamed : List (String × Expr) → List EntryId
  | [] => []
  | (_, e) :: rest => mentions e ++ mentionsOfNamed rest

end

theorem subset_mentionsOf {e : Expr} {items : List Expr} (h : e ∈ items) :
    e.mentions ⊆ mentionsOf items := by
  induction items with
  | nil => exact absurd h List.not_mem_nil
  | cons first rest ih =>
    rw [mentionsOf]
    rcases List.mem_cons.mp h with rfl | h
    · exact List.subset_append_left _ _
    · exact List.subset_append_of_subset_right _ (ih h)

theorem subset_mentionsOfNamed {argument : String × Expr} {named : List (String × Expr)}
    (h : argument ∈ named) : argument.2.mentions ⊆ mentionsOfNamed named := by
  induction named with
  | nil => exact absurd h List.not_mem_nil
  | cons first rest ih =>
    rw [mentionsOfNamed]
    rcases List.mem_cons.mp h with rfl | h
    · exact List.subset_append_left _ _
    · exact List.subset_append_of_subset_right _ (ih h)

variable {e : Expr} {id : EntryId}

theorem mentions_item {items : List Expr} (h : e ∈ items) (hid : id ∈ e.mentions) :
    id ∈ (list items).mentions := by
  rw [mentions]
  exact subset_mentionsOf h hid

theorem mentions_positional {f : Function} {named : List (String × Expr)}
    (hid : id ∈ e.mentions) : id ∈ (call f (some e) named).mentions := by
  rw [mentions]
  exact List.mem_append_left _ hid

theorem mentions_named {f : Function} {positional : Option Expr} {named : List (String × Expr)}
    {argument : String × Expr} (h : argument ∈ named) (hid : id ∈ argument.2.mentions) :
    id ∈ (call f positional named).mentions := by
  have hnamed := subset_mentionsOfNamed h hid
  cases positional with
  | none =>
    rw [mentions]
    exact hnamed
  | some first =>
    rw [mentions]
    exact List.mem_append_right _ hnamed

/-! ### Parts -/

mutual

/-- The parts of an expression, the expression among them. -/
def parts : Expr → List Expr
  | literal value => [literal value]
  | list items => list items :: partsOf items
  | this => [this]
  | var name => [var name]
  | lambda parameter body => lambda parameter body :: parts body
  | access object name => access object name :: parts object
  | call f none named => call f none named :: partsOfNamed named
  | call f (some positional) named =>
    call f (some positional) named :: (parts positional ++ partsOfNamed named)

def partsOf : List Expr → List Expr
  | [] => []
  | e :: rest => parts e ++ partsOf rest

def partsOfNamed : List (String × Expr) → List Expr
  | [] => []
  | (_, e) :: rest => parts e ++ partsOfNamed rest

end

theorem partsOf_eq_flatMap (items : List Expr) : partsOf items = items.flatMap parts := by
  induction items with
  | nil => rfl
  | cons first rest ih => rw [partsOf, ih, List.flatMap_cons]

theorem partsOfNamed_eq_flatMap (named : List (String × Expr)) :
    partsOfNamed named = named.flatMap fun argument => argument.2.parts := by
  induction named with
  | nil => rfl
  | cons first rest ih => rw [partsOfNamed, ih, List.flatMap_cons]

variable {x : Expr}

theorem mem_parts_self (e : Expr) : e ∈ e.parts := by
  cases e with
  | call f positional named =>
    cases positional with
    | none => exact List.mem_cons_self
    | some first => exact List.mem_cons_self
  | _ => exact List.mem_cons_self

theorem mem_parts_item {items : List Expr} (h : e ∈ items) (hx : x ∈ e.parts) :
    x ∈ (list items).parts := by
  rw [parts, partsOf_eq_flatMap]
  exact List.mem_cons_of_mem _ (List.mem_flatMap_of_mem h hx)

theorem mem_parts_body {parameter : String} (hx : x ∈ e.parts) : x ∈ (lambda parameter e).parts :=
  List.mem_cons_of_mem _ hx

theorem mem_parts_object {name : String} (hx : x ∈ e.parts) : x ∈ (access e name).parts :=
  List.mem_cons_of_mem _ hx

theorem mem_parts_positional {f : Function} {named : List (String × Expr)} (hx : x ∈ e.parts) :
    x ∈ (call f (some e) named).parts := by
  rw [parts]
  exact List.mem_cons_of_mem _ (List.mem_append_left _ hx)

theorem mem_parts_named {f : Function} {positional : Option Expr} {named : List (String × Expr)}
    {argument : String × Expr} (h : argument ∈ named) (hx : x ∈ argument.2.parts) :
    x ∈ (call f positional named).parts := by
  have hnamed : x ∈ partsOfNamed named := by
    rw [partsOfNamed_eq_flatMap]
    exact List.mem_flatMap_of_mem h hx
  cases positional with
  | none => exact List.mem_cons_of_mem _ hnamed
  | some first =>
    rw [parts]
    exact List.mem_cons_of_mem _ (List.mem_append_right _ hnamed)

def isCallOf (f : Function) : Expr → Bool
  | call g _ _ => decide (g = f)
  | _ => false

def Calls (f : Function) (e : Expr) : Prop :=
  ∃ x ∈ e.parts, x.isCallOf f = true

instance (f : Function) (e : Expr) : Decidable (e.Calls f) :=
  inferInstanceAs (Decidable (∃ x ∈ e.parts, x.isCallOf f = true))

theorem Calls.mono {f : Function} {whole : Expr} (h : e.Calls f)
    (hparts : ∀ {x}, x ∈ e.parts → x ∈ whole.parts) : whole.Calls f := by
  obtain ⟨x, hx, hcall⟩ := h
  exact ⟨x, hparts hx, hcall⟩

theorem calls_self (f : Function) (positional : Option Expr) (named : List (String × Expr)) :
    (call f positional named).Calls f :=
  ⟨_, mem_parts_self _, decide_eq_true rfl⟩

/-! ### Variables -/

/-- A variable occurs in an expression where no lambda of it binds the name. -/
inductive Free (name : String) : Expr → Prop where
  | var : Free name (var name)
  | item {items : List Expr} {e : Expr} : e ∈ items → Free name e → Free name (list items)
  | body {parameter : String} {e : Expr} : name ≠ parameter → Free name e →
      Free name (lambda parameter e)
  | object {e : Expr} {key : String} : Free name e → Free name (access e key)
  | positional {f : Function} {e : Expr} {named : List (String × Expr)} : Free name e →
      Free name (call f (some e) named)
  | named {f : Function} {positional : Option Expr} {named : List (String × Expr)}
      {argument : String × Expr} : argument ∈ named → Free name argument.2 →
      Free name (call f positional named)

/-- No variables are needed to evaluate the expression. -/
def Closed (e : Expr) : Prop :=
  ∀ name, ¬ Free name e

end GraphExpr.Expr
