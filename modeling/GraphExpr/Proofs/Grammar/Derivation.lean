import GraphExpr.Proofs.Grammar.Combinator

/-! # Derivations

The grammar as a relation between tokens and trees. Items and arguments are derived as series of
arguments; those of a list have no keys.
-/

namespace GraphExpr.Grammar

/-- What a stretch of tokens is derived as. -/
inductive Phrase where
  | expression (e : Expr)
  | primary (e : Expr)
  /-- What follows a receiver behind dots, and the tree that it makes of the receiver. -/
  | followUps (receiver result : Expr)
  | argument (a : Argument)
  /-- Arguments with commas between them. -/
  | series (arguments : List Argument)
  /-- The arguments behind the first one, and perhaps a comma at the end. -/
  | more (arguments : List Argument)

/-- The arguments of a call in the order in which they are written. -/
def callArguments (positional : Option Expr) (named : List (String × Expr)) : List Argument :=
  positional.toList.map .positional ++ named.map fun a => .named a.1 a.2

/-- The name is that of a function whose signature accepts the arguments. -/
structure Callable (registry : Registry) (name : String) (f : Function)
    (positional : Option Expr) (named : List (String × Expr)) : Prop where
  resolved : registry.resolve? name = some f
  accepted : f.signature.fault? positional.isSome (named.map Prod.fst) = none

inductive Derives (registry : Registry) : Phrase → List Token → Prop where
  | expression {e e' : Expr} {ts us : List Token} :
      Derives registry (.primary e) ts → Derives registry (.followUps e e') us →
      Derives registry (.expression e') (ts ++ us)
  | literal (value : Literal) : Derives registry (.primary (.literal value)) [.literal value]
  | list {items : List Expr} {ts : List Token} :
      Derives registry (.series (items.map .positional)) ts →
      Derives registry (.primary (.list items)) (.openBracket :: ts ++ [.closeBracket])
  | this : Derives registry (.primary .this) [.this]
  | lambda {p : String} {body : Expr} {ts : List Token} :
      isReserved p = false → Derives registry (.expression body) ts →
      Derives registry (.primary (.lambda p body))
        (.openParen :: .identifier p :: .arrow :: ts ++ [.closeParen])
  | parenthesized {e : Expr} {ts : List Token} :
      Derives registry (.expression e) ts →
      Derives registry (.primary e) (.openParen :: ts ++ [.closeParen])
  | call {name : String} {f : Function} {positional : Option Expr}
      {named : List (String × Expr)} {ts : List Token} :
      Callable registry name f positional named →
      Derives registry (.series (callArguments positional named)) ts →
      Derives registry (.primary (.call f positional named))
        (.identifier name :: .openParen :: ts ++ [.closeParen])
  | var (name : String) : Derives registry (.primary (.var name)) [.identifier name]
  | nothing (e : Expr) : Derives registry (.followUps e e) []
  | access {e e' : Expr} {name : String} {ts : List Token} :
      Derives registry (.followUps (.access e name) e') ts →
      Derives registry (.followUps e e') (.dot :: .identifier name :: ts)
  | dotCall {e e' : Expr} {name : String} {f : Function} {named : List (String × Expr)}
      {ts us : List Token} :
      Callable registry name f (some e) named →
      Derives registry (.series (callArguments none named)) ts →
      Derives registry (.followUps (.call f (some e) named) e') us →
      Derives registry (.followUps e e')
        (.dot :: .identifier name :: .openParen :: ts ++ .closeParen :: us)
  | positional {e : Expr} {ts : List Token} :
      Derives registry (.expression e) ts → Derives registry (.argument (.positional e)) ts
  | named {key : String} {e : Expr} {ts : List Token} :
      Derives registry (.expression e) ts →
      Derives registry (.argument (.named key e)) (.identifier key :: .assign :: ts)
  | empty : Derives registry (.series []) []
  | first {a : Argument} {as : List Argument} {ts us : List Token} :
      Derives registry (.argument a) ts → Derives registry (.more as) us →
      Derives registry (.series (a :: as)) (ts ++ us)
  | last : Derives registry (.more []) []
  | trailing : Derives registry (.more []) [.comma]
  | next {a : Argument} {as : List Argument} {ts us : List Token} :
      Derives registry (.argument a) ts → Derives registry (.more as) us →
      Derives registry (.more (a :: as)) (.comma :: ts ++ us)

variable {registry : Registry}

theorem Derives.followUps_append {e₁ e₂ e₃ : Expr} {ts us : List Token}
    (h : Derives registry (.followUps e₁ e₂) ts) (hu : Derives registry (.followUps e₂ e₃) us) :
    Derives registry (.followUps e₁ e₃) (ts ++ us) := by
  generalize hph : Phrase.followUps e₁ e₂ = ph at h
  induction h generalizing e₁ with
  | nothing => cases hph; exact hu
  | access _ ih => cases hph; exact .access (ih rfl)
  | dotCall hc hs _ _ ih =>
    cases hph
    simpa using Derives.dotCall hc hs (ih rfl)
  | _ => cases hph

theorem Derives.andThen {e e' : Expr} {ts us : List Token}
    (h : Derives registry (.expression e) ts) (hu : Derives registry (.followUps e e') us) :
    Derives registry (.expression e') (ts ++ us) := by
  obtain ⟨hp, hf⟩ := h
  rw [List.append_assoc]
  exact .expression hp (hf.followUps_append hu)

/-- Tokens that follow a complete expression. -/
def Stops (rest : List Token) : Prop :=
  ∀ t ∈ rest.head?, t ∈ [Token.comma, .closeParen, .closeBracket]

/-- Tokens that follow the last item of a list or of the arguments of a call. -/
def Closes (rest : List Token) : Prop :=
  ∃ t us, rest = t :: us ∧ (t = .closeParen ∨ t = .closeBracket)

/-- Tokens that make the name before them neither a key nor the parameter of a lambda. -/
def LeavesName (rest : List Token) : Prop :=
  ∀ t ∈ rest.head?, t ≠ .assign ∧ t ≠ .arrow

theorem Stops.leavesName {rest : List Token} (h : Stops rest) : LeavesName rest := by
  intro t ht
  have := h t ht
  constructor <;> rintro rfl <;> simp at this

theorem Closes.stops {rest : List Token} (h : Closes rest) : Stops rest := by
  obtain ⟨t, us, rfl, ht⟩ := h
  rcases ht with rfl | rfl <;> simp [Stops]

theorem Derives.followUps_head {e e' : Expr} {ts : List Token}
    (h : Derives registry (.followUps e e') ts) : ts = [] ∨ ∃ us, ts = .dot :: us := by
  cases h with
  | nothing => exact .inl rfl
  | access _ => exact .inr ⟨_, rfl⟩
  | dotCall _ _ _ => exact .inr ⟨_, rfl⟩

theorem Derives.leavesName {e : Expr} {ts rest : List Token}
    (h : Derives registry (.expression e) ts) (hrest : Stops rest) :
    ∃ t us, ts ++ rest = t :: us ∧ (t = .this ∨ (∃ n, t = .identifier n) → LeavesName us) := by
  obtain ⟨hp, hf⟩ := h
  rename_i us
  have hbehind : LeavesName (us ++ rest) := by
    rcases hf.followUps_head with rfl | ⟨us, rfl⟩
    · exact hrest.leavesName
    · simp [LeavesName]
  cases hp with
  | literal _ => exact ⟨_, _, rfl, fun _ => hbehind⟩
  | this => exact ⟨_, _, rfl, fun _ => hbehind⟩
  | var _ => exact ⟨_, _, rfl, fun _ => hbehind⟩
  | call _ _ => exact ⟨_, _, rfl, fun _ => by simp [LeavesName]⟩
  | list _ => exact ⟨_, _, rfl, by simp⟩
  | lambda _ _ => exact ⟨_, _, rfl, by simp⟩
  | parenthesized _ => exact ⟨_, _, rfl, by simp⟩

end GraphExpr.Grammar
