import Mathlib.Data.List.Chain
import GraphExpr.Proofs.Canonical.Unique
import GraphExpr.Proofs.Dict

/-! # Reading canonical texts of trees that were read

The canonical text of a tree that was read is read as the same tree, unless a constant of the
tree has empty units. The brackets of such units are tokens of their own behind a constant, where
no derivation has a bracket.
-/

namespace GraphExpr

theorem Registry.named_ofPlugins (plugins : List Plugin) : (ofPlugins plugins).Named := by
  intro name f h
  unfold resolve? at h
  split at h
  next _ hname =>
    cases h
    unfold Builtin.ofName? at hname
    have hb := List.find?_some hname
    exact beq_iff_eq.mp hb
  next =>
    obtain ⟨plugin, hfind, rfl⟩ := Option.map_eq_some_iff.mp h
    obtain ⟨_, _, heq⟩ := List.mem_map.mp (Dict.mem_ofList (Dict.mem_of_find? hfind))
    cases heq
    rfl

namespace Expr

mutual

def constants : Expr → List Literal
  | literal value => [value]
  | list items => constantsItems items
  | this => []
  | var _ => []
  | lambda _ body => constants body
  | access object _ => constants object
  | call _ none named => constantsNamed named
  | call _ (some x) named => constants x ++ constantsNamed named

def constantsItems : List Expr → List Literal
  | [] => []
  | item :: rest => constants item ++ constantsItems rest

def constantsNamed : List (String × Expr) → List Literal
  | [] => []
  | (_, value) :: rest => constants value ++ constantsNamed rest

end

theorem mem_constantsItems {items : List Expr} {c : Literal} :
    c ∈ constantsItems items ↔ ∃ x ∈ items, c ∈ x.constants := by
  induction items with
  | nil => simp [constantsItems]
  | cons x items ih => simp [constantsItems, ih]

theorem mem_constantsNamed {named : List (String × Expr)} {c : Literal} :
    c ∈ constantsNamed named ↔ ∃ a ∈ named, c ∈ a.2.constants := by
  induction named with
  | nil => simp [constantsNamed]
  | cons a named ih => rw [constantsNamed, List.mem_append, ih, List.exists_mem_cons_iff]

theorem mem_constants_call {f : Function} {positional : Option Expr}
    {named : List (String × Expr)} {c : Literal} :
    c ∈ (call f positional named).constants ↔
      (∃ x ∈ positional, c ∈ x.constants) ∨ ∃ a ∈ named, c ∈ a.2.constants := by
  cases positional with
  | none => simp [constants, mem_constantsNamed]
  | some x => simp [constants, mem_constantsNamed]

variable {p q : Literal → Prop} {registry : Registry} {e : Expr}

theorem Formed.imp_constants (h : Formed p registry e) (hq : ∀ c ∈ e.constants, p c → q c) :
    Formed q registry e := by
  induction h with
  | literal hp => exact .literal (hq _ (by simp [constants]) hp)
  | list _ ih =>
    refine .list fun x hx => ih x hx fun c hc => hq c ?_
    rw [constants]
    exact mem_constantsItems.mpr ⟨x, hx, hc⟩
  | this => exact .this
  | var hname => exact .var hname
  | lambda hname _ ih => exact .lambda hname (ih hq)
  | access _ hname ih => exact .access (ih hq) hname
  | call hname hresolve haccept _ hkeys _ ihp ihn =>
    refine .call hname hresolve haccept ?_ hkeys ?_
    · exact fun x hx => ihp x hx fun c hc => hq c (mem_constants_call.mpr (.inl ⟨x, hx, hc⟩))
    · exact fun a ha => ihn a ha fun c hc => hq c (mem_constants_call.mpr (.inr ⟨a, ha, hc⟩))

theorem Formed.mapLiterals_eq {f : Literal → Literal} (h : Formed p registry e)
    (hf : ∀ c, p c → f c = c) : e.mapLiterals f = e := by
  induction h with
  | literal hp => rw [mapLiterals, hf _ hp]
  | list _ ih =>
    rw [mapLiterals, mapLiteralsItems_eq, List.map_congr_left ih, List.map_id']
  | this => rfl
  | var _ => rfl
  | lambda _ _ ih => rw [mapLiterals, ih]
  | access _ _ ih => rw [mapLiterals, ih]
  | @call _ positional named _ _ _ _ _ _ ihp ihn =>
    have hn : named.map (fun a => (a.1, a.2.mapLiterals f)) = named.map id :=
      List.map_congr_left fun a ha => by rw [ihn a ha, id]
    rw [List.map_id] at hn
    rw [mapLiterals_call, hn]
    cases positional with
    | none => rfl
    | some x => rw [Option.map_some, ihp x rfl]

end Expr

namespace Grammar

/-- No bracket opens right behind a constant. -/
def Adjacent : Token → Token → Prop
  | .literal _, .openBracket => False
  | _, _ => True

theorem adjacent_of_ne_openBracket (t : Token) {u : Token} (h : u ≠ .openBracket) :
    Adjacent t u := by
  unfold Adjacent
  split
  · exact h rfl
  · trivial

theorem isChain_append {ts us : List Token} (ht : ts.IsChain Adjacent) (hu : us.IsChain Adjacent)
    (h : us.head? ≠ some .openBracket) : (ts ++ us).IsChain Adjacent := by
  refine ht.append hu fun t _ u hhead => adjacent_of_ne_openBracket t ?_
  rintro rfl
  exact h hhead

theorem isChain_cons {t : Token} {ts : List Token} (h : ∀ l, t ≠ .literal l)
    (hts : ts.IsChain Adjacent) : (t :: ts).IsChain Adjacent := by
  refine hts.cons fun u _ => ?_
  cases t with
  | literal l => exact absurd rfl (h l)
  | _ => trivial

theorem isChain_group {t u : Token} {ts : List Token} (h : ∀ l, t ≠ .literal l)
    (hts : ts.IsChain Adjacent) (hu : u ≠ .openBracket) :
    (t :: ts ++ [u]).IsChain Adjacent :=
  isChain_cons h (isChain_append hts (.singleton u) (by simpa using hu))

variable {registry : Registry}

theorem Derives.more_head {as : List Argument} {ts : List Token}
    (h : Derives registry (.more as) ts) : ts.head? ≠ some .openBracket := by
  cases h <;> simp

theorem Derives.isChain {phrase : Phrase} {ts : List Token} (h : Derives registry phrase ts) :
    ts.IsChain Adjacent := by
  induction h with
  | expression _ hf ihp ihf =>
    refine isChain_append ihp ihf ?_
    rcases hf.followUps_head with rfl | ⟨us, rfl⟩ <;> simp
  | literal value => exact .singleton _
  | list _ ih => exact isChain_group (by simp) ih (by simp)
  | this => exact .singleton _
  | lambda _ _ ih =>
    exact isChain_group (by simp) (isChain_cons (by simp) (isChain_cons (by simp) ih)) (by simp)
  | parenthesized _ ih => exact isChain_group (by simp) ih (by simp)
  | call _ _ ih => exact isChain_cons (by simp) (isChain_group (by simp) ih (by simp))
  | var name => exact .singleton _
  | nothing e => exact .nil
  | access _ ih => exact isChain_cons (by simp) (isChain_cons (by simp) ih)
  | dotCall _ _ _ ihs ihf =>
    refine isChain_cons (by simp) (isChain_cons (by simp) (isChain_cons (by simp) ?_))
    exact isChain_append ihs (isChain_cons (by simp) ihf) (by simp)
  | positional _ ih => exact ih
  | named _ ih => exact isChain_cons (by simp) (isChain_cons (by simp) ih)
  | empty => exact .nil
  | first _ hm iha ihm => exact isChain_append iha ihm hm.more_head
  | last => exact .nil
  | trailing => exact .singleton _
  | next _ hm iha ihm => exact isChain_cons (by simp) (isChain_append iha ihm hm.more_head)

end Grammar

namespace Expr

open Token Grammar

theorem infix_intercalate {α : Type} {separator ts : List α} {l : List (List α)} (h : ts ∈ l) :
    ts <:+: separator.intercalate l := by
  induction l with
  | nil => cases h
  | cons us l ih =>
    cases l with
    | nil =>
      obtain rfl := List.mem_singleton.mp h
      simp
    | cons vs l =>
      rw [List.intercalate_cons_cons]
      rcases List.mem_cons.mp h with rfl | h
      · exact ⟨[], separator ++ separator.intercalate (vs :: l), by simp⟩
      · exact (ih h).trans ⟨us ++ separator, [], by simp⟩

variable {registry : Registry} {e : Expr}

variable {spell : Literal → List Token}

theorem isChain_of_intercalate {ts : List Token} {l : List (List Token)}
    (h : ([Token.comma].intercalate l).IsChain Adjacent) (hts : ts ∈ l) : ts.IsChain Adjacent :=
  List.IsChain.infix h (infix_intercalate hts)

theorem isChain_of_tokensNamed {named : List (String × Expr)} {l : List (List Token)}
    (h : ([Token.comma].intercalate (l ++ tokensNamed spell named)).IsChain Adjacent)
    {a : String × Expr} (ha : a ∈ named) : (a.2.tokens spell).IsChain Adjacent := by
  have hmem : .identifier a.1 :: .assign :: a.2.tokens spell ∈ l ++ tokensNamed spell named := by
    rw [tokensNamed_eq]
    exact List.mem_append_right l (List.mem_map_of_mem ha)
  exact (isChain_of_intercalate h hmem).tail.tail

/-- The tokens of the canonical text have a bracket behind each constant with empty units. -/
theorem Formed.not_mem_of_isChain {p : Literal → Prop} (h : Formed p registry e)
    (hc : (e.tokens Literal.printed).IsChain Adjacent) (d : Decimal) :
    Literal.quantity ⟨d, some ""⟩ ∉ e.constants := by
  induction h with
  | literal _ =>
    rw [constants, List.mem_singleton]
    rintro rfl
    exact hc.rel
  | list _ ih =>
    rw [constants, mem_constantsItems]
    rintro ⟨x, hx, hd⟩
    rw [tokens, tokensItems_eq] at hc
    have hitems := hc.left_of_append.tail
    exact ih x hx (isChain_of_intercalate hitems (List.mem_map_of_mem hx)) hd
  | this => simp [constants]
  | var _ => simp [constants]
  | lambda _ _ ih => exact ih hc.left_of_append.tail.tail.tail
  | access _ _ ih => exact ih hc.left_of_append
  | @call f positional named _ _ haccept _ _ _ ihp ihn =>
    rw [mem_constants_call]
    cases positional with
    | none => simp [named_eq_nil_of_accepted haccept]
    | some x =>
      rw [tokens] at hc
      split at hc
      · rintro (⟨_, ⟨⟩, hd⟩ | ⟨a, ha, hd⟩)
        · exact ihp x rfl hc.left_of_append.left_of_append hd
        · have hargs := hc.left_of_append.right_of_append.tail.tail.tail
          exact ihn a ha (isChain_of_tokensNamed (l := []) hargs ha) hd
      · have hargs := hc.left_of_append.tail.tail
        rintro (⟨_, ⟨⟩, hd⟩ | ⟨a, ha, hd⟩)
        · exact ihp x rfl (isChain_of_intercalate hargs List.mem_cons_self) hd
        · exact ihn a ha (isChain_of_tokensNamed (l := [_]) hargs ha) hd

/-- A tree that was read is read from its canonical text if none of its constants has empty
units. -/
theorem Formed.parse_canonical (h : Formed Literal.IsReadable registry e)
    (hunits : ∀ d, Literal.quantity ⟨d, some ""⟩ ∉ e.constants) :
    parse registry e.canonical = .ok e := by
  have hw : Formed (fun c => c.IsWritable ∧ c.reread = c) registry e := by
    refine h.imp_constants fun c hc hreadable => ?_
    rcases hreadable.cases with ⟨d, rfl⟩ | hw
    · exact absurd hc (hunits d)
    · exact hw
  have hreread : e.reread = e := hw.mapLiterals_eq fun _ hc => hc.2
  have hwell : WellFormed registry e := hw.imp_constants fun _ _ hc => hc.1
  rw [hwell.parse_canonical, hreread]

/-- The canonical text of a tree that was read is read as the tree itself, and it is read at all
exactly if no constant of the tree has empty units. -/
theorem parse_canonical_eq_ok_iff (plugins : List Plugin) {text : String} {e : Expr}
    (h : parse (.ofPlugins plugins) text = .ok e) (e' : Expr) :
    parse (.ofPlugins plugins) e.canonical = .ok e' ↔
      e' = e ∧ ∀ d, Literal.quantity ⟨d, some ""⟩ ∉ e.constants := by
  have hreadable := readable_of_parse (Registry.named_ofPlugins plugins) h
  constructor
  · intro h'
    obtain ⟨located, hread, hd⟩ := Grammar.parse_eq_ok_iff.mp h'
    obtain ⟨located', hread', ht⟩ := Lexes.readAll (s := e.canonical)
      (by simpa using hreadable.reads spelled_readable [] [] .nil .nil)
    obtain rfl : located = located' := by simpa [hread] using hread'
    rw [ht] at hd
    have hunits := hreadable.not_mem_of_isChain hd.isChain
    rw [hreadable.parse_canonical hunits] at h'
    exact ⟨by cases h'; rfl, hunits⟩
  · rintro ⟨rfl, hunits⟩
    exact hreadable.parse_canonical hunits

/-- The canonical text of `5 [kg ]` is `5 [kg]`. -/
theorem parse_canonical_eq_ok_iff_trimmed :
    parse (.ofPlugins []) "5 [kg ]" =
      .ok (.literal (.quantity ⟨⟨5, 0, by decide, by decide⟩, some "kg"⟩)) ∧
    parse (.ofPlugins [])
        (canonical (.literal (.quantity ⟨⟨5, 0, by decide, by decide⟩, some "kg"⟩))) =
      .ok (.literal (.quantity ⟨⟨5, 0, by decide, by decide⟩, some "kg"⟩)) := by
  have h : parse (.ofPlugins []) "5 [kg ]" =
      .ok (.literal (.quantity ⟨⟨5, 0, by decide, by decide⟩, some "kg"⟩)) := rfl
  exact ⟨h, (parse_canonical_eq_ok_iff [] h _).mpr ⟨rfl, by simp [constants]⟩⟩

/-- The canonical text of `5 [ ]` is `5 []`, which is not read. -/
theorem parse_canonical_of_blank_units : ∃ e, parse (.ofPlugins []) "5 [ ]" = .ok e ∧
    e.canonical = "5 []" ∧ ∀ e', parse (.ofPlugins []) e.canonical ≠ .ok e' := by
  have hread : parse (.ofPlugins []) "5 [ ]" =
      .ok (.literal (.quantity ⟨⟨5, 0, by decide, by decide⟩, some ""⟩)) := rfl
  have hcanonical : canonical (.literal (.quantity ⟨⟨5, 0, by decide, by decide⟩, some ""⟩)) =
      "5 []" := by decide
  have hrefused : parse (.ofPlugins []) "5 []" = .error (.trailingInput "[" 2) := rfl
  refine ⟨_, hread, hcanonical, fun e' h => ?_⟩
  rw [hcanonical, hrefused] at h
  cases h

end Expr

end GraphExpr
