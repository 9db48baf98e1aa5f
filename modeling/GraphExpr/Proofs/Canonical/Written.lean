import Mathlib.Tactic.Choose
import GraphExpr.Proofs.Canonical.RoundTrip

/-! # Texts of expressions

A text is written for an expression if it is read as the expression wherever an expression may
stand. Canonical texts are, and texts that are put together from such texts are written for the
expressions that are put together the same way, even where a canonical text would look different.
-/

namespace GraphExpr

namespace Expr

open Token Grammar

/-- The text is read as the expression, wherever an expression may stand. -/
def Written (registry : Registry) (text : String) (e : Expr) : Prop :=
  ∃ ts, Reads text.toList ts ∧ Unslashed text.toList ∧ Derives registry (.expression e) ts

variable {registry : Registry} {text : String} {e : Expr}

theorem Written.parse (h : Written registry text e) : parse registry text = .ok e := by
  obtain ⟨ts, hreads, -, hderives⟩ := h
  have hl := hreads [] [] .nil .nil
  rw [List.append_nil, List.append_nil] at hl
  exact parse_of_lexes hl hderives

theorem WellFormed.written (h : WellFormed registry e) : Written registry e.canonical e.reread :=
  ⟨_, Formed.reads spelled_writable h, Formed.unslashed spelled_writable h, Formed.derives h⟩

theorem Written.list {α : Type} {items : List α} {text : α → String} {tree : α → Expr}
    (h : ∀ x ∈ items, Written registry (text x) (tree x)) :
    Written registry ("[" ++ ", ".intercalate (items.map text) ++ "]")
      (.list (items.map tree)) := by
  choose! ts hreads hunslashed hderives using h
  have htexts : ∀ text' ∈ items.map text, Unslashed text'.toList :=
    List.forall_mem_map.mpr hunslashed
  refine ⟨.openBracket :: [Token.comma].intercalate (items.map ts) ++ [.closeBracket], ?_, ?_, ?_⟩
  · intro rest us hf hrest
    have hclose := lexes_symbol (c := ']') (by decide) rfl hrest
    have hread := Reads.intercalate hreads _ _ (.delimiter (by decide)) hclose
    have hopen := unslashed_intercalate htexts rest
    simpa using (spells_openBracket hopen.stripStart?_eq_none).lexes hread
  · obtain ⟨c, cs, hc, hslash, -⟩ := unslashed_intercalate htexts []
    refine ⟨'[', (", ".intercalate (items.map text)).toList ++ [']'], by simp, by decide,
      fun _ => ⟨c, cs, hc, hslash⟩⟩
  · have hitem (x) (hx : x ∈ items) : Derives registry (.argument (.positional (tree x))) (ts x) :=
      .positional (hderives x hx)
    exact derives_primary (.list (by simpa [Function.comp_def] using derives_series hitem))

theorem Written.dotCall {f : Function} {α : Type} {named : List (String × α)} {text' : α → String}
    {tree : α → Expr} (hx : Written registry text e) (hname : IsName f.name)
    (hresolve : registry.resolve? f.name = some f)
    (hfault : f.signature.fault? true (named.map Prod.fst) = none)
    (hkeys : ∀ a ∈ named, IsName a.1)
    (h : ∀ a ∈ named, Written registry (text' a.2) (tree a.2)) :
    Written registry (text ++ "." ++ f.name ++
        "(" ++ ", ".intercalate (named.map fun a => a.1 ++ "=" ++ text' a.2) ++ ")")
      (.call f (some e) (named.map fun a => (a.1, tree a.2))) := by
  obtain ⟨us, hreads, hunslashed, hderives⟩ := hx
  choose! ts hreads' _ hderives' using h
  have hargument (a) (ha : a ∈ named) := reads_named (hkeys a ha) (hreads' a ha)
  refine ⟨us ++ .dot :: .identifier f.name :: .openParen ::
    [Token.comma].intercalate (named.map fun a => .identifier a.1 :: .assign :: ts a) ++
      [.closeParen], ?_, ?_, ?_⟩
  · intro rest vs hf hrest
    have hclose := lexes_symbol (c := ')') (by decide) rfl hrest
    have hread := Reads.intercalate hargument _ _ (.delimiter (by decide)) hclose
    have hopen := lexes_symbol (c := '(') (by decide) rfl hread
    have hdot := lexes_symbol (c := '.') (by decide) rfl
      (hname.lexes (heads_cons.mpr (by decide)) hopen)
    simpa using hreads _ _ (hname.follows_dot _) hdot
  · simp only [String.toList_append, List.append_assoc]
    exact hunslashed.append _
  · have hnamed (a) (ha : a ∈ named) : Derives registry (.argument (.named a.1 (tree a.2)))
        (.identifier a.1 :: .assign :: ts a) := .named (hderives' a ha)
    have hseries := derives_series hnamed
    have hcallable : Callable registry f.name f (some e) (named.map fun a => (a.1, tree a.2)) :=
      ⟨hresolve, by simpa [Function.comp_def] using hfault⟩
    have hcall := Derives.dotCall hcallable
      (by simpa [callArguments, Function.comp_def] using hseries) (.nothing _)
    simpa using hderives.andThen hcall

end Expr

end GraphExpr
