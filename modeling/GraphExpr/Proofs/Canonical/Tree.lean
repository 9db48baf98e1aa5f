import GraphExpr.Expr
import GraphExpr.Proofs.Canonical.Constant

/-! # Writable trees

The trees whose canonical text can be read, the tree that is read, and its tokens.
-/

namespace GraphExpr

namespace Expr

/-- Induction over expressions and the expressions inside them. -/
@[elab_as_elim]
theorem nestedInduction {motive : Expr → Prop} (literal : ∀ value, motive (.literal value))
    (list : ∀ items, (∀ x ∈ items, motive x) → motive (.list items)) (this : motive .this)
    (var : ∀ name, motive (.var name))
    (lambda : ∀ parameter body, motive body → motive (.lambda parameter body))
    (access : ∀ object name, motive object → motive (.access object name))
    (call : ∀ f positional named, (∀ x ∈ positional, motive x) →
      (∀ a ∈ named, motive a.2) → motive (.call f positional named)) (e : Expr) : motive e :=
  @Expr.rec motive (fun items => ∀ x ∈ items, motive x)
    (fun positional => ∀ x ∈ positional, motive x) (fun named => ∀ a ∈ named, motive a.2)
    (fun a => motive a.2) literal list this var lambda access
    (fun f positional named hp hn => call f positional named hp hn)
    (by simp) (fun _ _ hx hs => List.forall_mem_cons.mpr ⟨hx, hs⟩)
    (by simp) (fun _ hx y hy => by cases hy; exact hx)
    (by simp) (fun _ _ ha hs => List.forall_mem_cons.mpr ⟨ha, hs⟩)
    (fun _ _ h => h) e

theorem sameItems_map {items : List Expr} {f : Expr → Expr}
    (h : ∀ x ∈ items, x.same (f x) = true) : sameItems items (items.map f) = true := by
  induction items with
  | nil => rfl
  | cons x items ih =>
    obtain ⟨hx, hs⟩ := List.forall_mem_cons.mp h
    simp [sameItems, hx, ih hs]

theorem sameNamed_map {named : List (String × Expr)} {f : Expr → Expr}
    (h : ∀ a ∈ named, a.2.same (f a.2) = true) :
    sameNamed named (named.map fun a => (a.1, f a.2)) = true := by
  induction named with
  | nil => rfl
  | cons a named ih =>
    obtain ⟨hx, hs⟩ := List.forall_mem_cons.mp h
    simp [sameNamed, hx, ih hs]

theorem canonicalItems_eq (items : List Expr) : canonicalItems items = items.map canonical := by
  induction items with
  | nil => rfl
  | cons _ _ ih => rw [canonicalItems, ih, List.map_cons]

theorem canonicalNamed_eq (named : List (String × Expr)) :
    canonicalNamed named = named.map fun a => a.1 ++ "=" ++ a.2.canonical := by
  induction named with
  | nil => rfl
  | cons _ _ ih => rw [canonicalNamed, ih, List.map_cons]

mutual

def mapLiterals (f : Literal → Literal) : Expr → Expr
  | literal value => literal (f value)
  | list items => list (mapLiteralsItems f items)
  | this => this
  | var name => var name
  | lambda parameter body => lambda parameter (mapLiterals f body)
  | access object name => access (mapLiterals f object) name
  | call function none named => call function none (mapLiteralsNamed f named)
  | call function (some x) named =>
    call function (some (mapLiterals f x)) (mapLiteralsNamed f named)

def mapLiteralsItems (f : Literal → Literal) : List Expr → List Expr
  | [] => []
  | item :: rest => mapLiterals f item :: mapLiteralsItems f rest

def mapLiteralsNamed (f : Literal → Literal) : List (String × Expr) → List (String × Expr)
  | [] => []
  | (key, value) :: rest => (key, mapLiterals f value) :: mapLiteralsNamed f rest

end

theorem mapLiteralsItems_eq (f : Literal → Literal) (items : List Expr) :
    mapLiteralsItems f items = items.map (mapLiterals f) := by
  induction items with
  | nil => rfl
  | cons _ _ ih => rw [mapLiteralsItems, ih, List.map_cons]

theorem mapLiteralsNamed_eq (f : Literal → Literal) (named : List (String × Expr)) :
    mapLiteralsNamed f named = named.map fun a => (a.1, a.2.mapLiterals f) := by
  induction named with
  | nil => rfl
  | cons _ _ ih => rw [mapLiteralsNamed, ih, List.map_cons]

theorem mapLiterals_call (g : Literal → Literal) (f : Function) (positional : Option Expr)
    (named : List (String × Expr)) :
    mapLiterals g (.call f positional named) =
      .call f (positional.map (mapLiterals g)) (named.map fun a => (a.1, a.2.mapLiterals g)) := by
  cases positional <;> simp [mapLiterals, mapLiteralsNamed_eq]

theorem mapLiterals_id (e : Expr) : e.mapLiterals id = e := by
  induction e using nestedInduction with
  | literal value => rfl
  | list items ih => rw [mapLiterals, mapLiteralsItems_eq, List.map_congr_left ih, List.map_id']
  | this => rfl
  | var name => rfl
  | lambda parameter body ih => rw [mapLiterals, ih]
  | access object name ih => rw [mapLiterals, ih]
  | call f positional named ihp ihn =>
    have hn : named.map (fun a => (a.1, a.2.mapLiterals id)) = named :=
      (List.map_congr_left fun a ha => by rw [ihn a ha]).trans named.map_id'
    rw [mapLiterals_call, hn]
    cases positional with
    | none => rfl
    | some x => rw [Option.map_some, ihp x rfl]

/-- The tree that the canonical text is read as: its constants are read anew. -/
def reread (e : Expr) : Expr :=
  e.mapLiterals Literal.reread

theorem same_reread (e : Expr) : e.same e.reread = true := by
  rw [reread]
  induction e using nestedInduction with
  | literal value => simpa [mapLiterals, same] using value.reread_same
  | list items ih => simpa [mapLiterals, same, mapLiteralsItems_eq] using sameItems_map ih
  | this => rfl
  | var name => simp [mapLiterals, same]
  | lambda parameter body ih => simpa [mapLiterals, same] using ih
  | access object name ih => simpa [mapLiterals, same] using ih
  | call f positional named ihp ihn =>
    have hf : f.same f = true := by cases f <;> simp [Function.same]
    have hn := sameNamed_map ihn
    cases positional with
    | none => simp [mapLiterals, same, mapLiteralsNamed_eq, hf, hn]
    | some x => simp [mapLiterals, same, mapLiteralsNamed_eq, hf, hn, ihp x rfl]

open Token in
/-- A tree whose names are names, whose constants satisfy a condition, and whose calls are to
functions of the registry with arguments that their signatures accept. -/
inductive Formed (p : Literal → Prop) (registry : Registry) : Expr → Prop where
  | literal {value : Literal} : p value → Formed p registry (.literal value)
  | list {items : List Expr} : (∀ x ∈ items, Formed p registry x) → Formed p registry (.list items)
  | this : Formed p registry .this
  | var {name : String} : IsName name → Formed p registry (.var name)
  | lambda {parameter : String} {body : Expr} :
      IsName parameter → Formed p registry body → Formed p registry (.lambda parameter body)
  | access {object : Expr} {name : String} :
      Formed p registry object → IsName name → Formed p registry (.access object name)
  | call {f : Function} {positional : Option Expr} {named : List (String × Expr)} :
      IsName f.name → registry.resolve? f.name = some f →
      f.signature.fault? positional.isSome (named.map Prod.fst) = none →
      (∀ x ∈ positional, Formed p registry x) → (∀ a ∈ named, IsName a.1) →
      (∀ a ∈ named, Formed p registry a.2) → Formed p registry (.call f positional named)

/-- A tree whose canonical text can be read. -/
abbrev WellFormed (registry : Registry) (e : Expr) : Prop :=
  Formed Literal.IsWritable registry e

mutual

/-- The tokens of the canonical text, in which constants are spelled as given. -/
def tokens (spell : Literal → List Token) : Expr → List Token
  | literal value => spell value
  | list items =>
    .openBracket :: [Token.comma].intercalate (tokensItems spell items) ++ [.closeBracket]
  | this => [.this]
  | var name => [.identifier name]
  | lambda parameter body =>
    .openParen :: .identifier parameter :: .arrow :: tokens spell body ++ [.closeParen]
  | access object name => tokens spell object ++ [.dot, .identifier name]
  | call function none _ => [.identifier function.name, .openParen, .closeParen]
  | call function (some receiver) named =>
    if prefersDot receiver then
      tokens spell receiver ++ .dot :: .identifier function.name :: .openParen ::
        [Token.comma].intercalate (tokensNamed spell named) ++ [.closeParen]
    else
      .identifier function.name :: .openParen ::
        [Token.comma].intercalate (tokens spell receiver :: tokensNamed spell named) ++
        [.closeParen]

def tokensItems (spell : Literal → List Token) : List Expr → List (List Token)
  | [] => []
  | item :: rest => tokens spell item :: tokensItems spell rest

def tokensNamed (spell : Literal → List Token) : List (String × Expr) → List (List Token)
  | [] => []
  | (key, value) :: rest =>
    (.identifier key :: .assign :: tokens spell value) :: tokensNamed spell rest

end

theorem tokensItems_eq (spell : Literal → List Token) (items : List Expr) :
    tokensItems spell items = items.map (tokens spell) := by
  induction items with
  | nil => rfl
  | cons _ _ ih => rw [tokensItems, ih, List.map_cons]

theorem tokensNamed_eq (spell : Literal → List Token) (named : List (String × Expr)) :
    tokensNamed spell named =
      named.map fun a => .identifier a.1 :: .assign :: a.2.tokens spell := by
  induction named with
  | nil => rfl
  | cons _ _ ih => rw [tokensNamed, ih, List.map_cons]

end Expr

end GraphExpr
