import GraphExpr.Proofs.Canonical.Tree
import GraphExpr.Proofs.Grammar.Soundness

/-! # Reading canonical texts

The canonical text of a well-formed tree is read as the tree. The text is cut into the tokens of
the tree, whatever may follow it, and these tokens derive the tree.
-/

namespace GraphExpr

namespace Token

/-- The text is read as the tokens, wherever it is followed as an expression may be. -/
def Reads (text : List Char) (ts : List Token) : Prop :=
  ∀ (rest : List Char) (us : List Token), Follows rest → Lexes rest us →
    Lexes (text ++ rest) (ts ++ us)

theorem lexes_symbol {c : Char} {t : Token} {rest : List Char} {us : List Token}
    (h : isPlainSymbol c = true) (ht : readSymbol? (c :: rest) = some (t, rest))
    (hrest : Lexes rest us) : Lexes (c :: rest) (t :: us) :=
  (spells_symbol rest h ht).lexes hrest

theorem IsName.lexes {s : String} (h : IsName s) {rest : List Char} {us : List Token}
    (hheads : Heads (fun d => !isWordChar d) rest) (hrest : Lexes rest us) :
    Lexes (s.toList ++ rest) (.identifier s :: us) :=
  (h.spells hheads).lexes hrest

theorem IsName.follows_dot {s : String} (h : IsName s) (rest : List Char) :
    Follows ('.' :: (s.toList ++ rest)) := by
  obtain ⟨c, cs, hs, hc, -, -⟩ := h
  rw [hs]
  exact .dot hc

theorem Reads.nil : Reads [] [] := fun _ _ _ h => h

theorem Reads.intercalate {α : Type} {l : List α} {text : α → String} {ts : α → List Token}
    (h : ∀ a ∈ l, Reads (text a).toList (ts a)) :
    Reads (", ".intercalate (l.map text)).toList ([Token.comma].intercalate (l.map ts)) := by
  induction l with
  | nil => exact Reads.nil
  | cons a l ih =>
    obtain ⟨ha, hl⟩ := List.forall_mem_cons.mp h
    cases l with
    | nil => simpa using ha
    | cons b l =>
      intro rest us hf hrest
      have hblank := Lexes.blank (c := ' ') rfl (ih hl rest us hf hrest)
      have hcomma := lexes_symbol (c := ',') (by decide) rfl hblank
      have := ha _ _ (.delimiter (by decide)) hcomma
      simpa [String.toList_intercalate] using this

/-- The text does not make a bracket before it the start of a reference. -/
def Unslashed (text : List Char) : Prop :=
  ∃ c cs, text = c :: cs ∧ c ≠ '/' ∧ (c = '[' → ∃ d ds, cs = d :: ds ∧ d ≠ '/')

theorem Unslashed.append {text : List Char} (h : Unslashed text) (rest : List Char) :
    Unslashed (text ++ rest) := by
  obtain ⟨c, cs, rfl, hc, hb⟩ := h
  refine ⟨c, cs ++ rest, rfl, hc, fun he => ?_⟩
  obtain ⟨d, ds, rfl, hd⟩ := hb he
  exact ⟨d, ds ++ rest, rfl, hd⟩

theorem Unslashed.stripStart?_eq_none {text : List Char} (h : Unslashed text) :
    stripStart? "[/".toList text = none := by
  obtain ⟨c, cs, rfl, _, hb⟩ := h
  by_cases hc : c = '['
  · obtain ⟨d, ds, rfl, hd⟩ := hb hc
    simp [stripStart?, hc, Ne.symm hd]
  · simp [stripStart?, Ne.symm hc]

theorem unslashed_cons {c : Char} (cs : List Char) (hc : c ≠ '/') (hb : c ≠ '[') :
    Unslashed (c :: cs) :=
  ⟨c, cs, rfl, hc, fun h => absurd h hb⟩

theorem unslashed_intercalate {texts : List String} (h : ∀ text ∈ texts, Unslashed text.toList)
    (rest : List Char) : Unslashed ((", ".intercalate texts).toList ++ ']' :: rest) := by
  cases texts with
  | nil => exact unslashed_cons _ (by decide) (by decide)
  | cons text texts =>
    refine Unslashed.append ?_ _
    rw [String.toList_intercalate, List.map_cons]
    cases texts with
    | nil => simpa using h text (by simp)
    | cons text' texts =>
      rw [List.map_cons, List.intercalate_cons_cons, List.append_assoc]
      exact (h text (by simp)).append _

theorem IsName.unslashed {s : String} (h : IsName s) : Unslashed s.toList := by
  obtain ⟨c, cs, hs, hc, -, -⟩ := h
  rw [hs]
  exact unslashed_cons cs (ne_of_class hc (by decide)) (ne_of_class hc (by decide))

theorem Spells.unslashed {value : Literal} {text : List Char}
    (h : Spells (.literal value) text []) : Unslashed text := by
  obtain ⟨hne, hr⟩ := h
  rw [List.append_nil] at hr
  cases text with
  | nil => simp at hne
  | cons c cs =>
    have hslash (ds : List Char) : read? ('/' :: ds) = none := by
      rw [read?_eq_readSymbol? (readString?_eq_none (by decide))
        (readReference?_eq_none (by decide)) (readNumber?_eq_none (by decide) (by decide))
        (readWord?_eq_none (by decide))]
      rfl
    have hbracket (ds : List Char) (hds : stripStart? "[/".toList ds = none) :
        read? ('[' :: ds) = some (.openBracket, ds) := (spells_openBracket hds).2
    refine ⟨c, cs, rfl, ?_, ?_⟩
    · rintro rfl
      rw [hslash] at hr
      simp at hr
    · rintro rfl
      cases cs with
      | nil => rw [hbracket _ rfl] at hr; simp at hr
      | cons d ds =>
        refine ⟨d, ds, rfl, ?_⟩
        rintro rfl
        rw [hbracket _ (by simp [stripStart?])] at hr
        simp at hr

theorem unslashed_literal {l : Literal} (hl : l.IsWritable) : Unslashed l.canonical.toList :=
  (spells_literal hl Follows.nil).unslashed

/-- The canonical texts of the constants of a sort are read as the given tokens. -/
structure Spelled (p : Literal → Prop) (spell : Literal → List Token) : Prop where
  reads : ∀ l, p l → Reads l.canonical.toList (spell l)
  unslashed : ∀ l, p l → Unslashed l.canonical.toList

theorem spelled_writable : Spelled Literal.IsWritable fun l => [.literal l.reread] where
  reads _ hl _ _ hf hrest := (spells_literal hl hf).lexes hrest
  unslashed _ := unslashed_literal

end Token

namespace Expr

open Token Grammar

variable {registry : Registry} {e : Expr} {p : Literal → Prop} {spell : Literal → List Token}

theorem Formed.unslashed (hs : Spelled p spell) (h : Formed p registry e) :
    Unslashed e.canonical.toList := by
  induction h with
  | literal hl => exact hs.unslashed _ hl
  | @list items _ ih =>
    obtain ⟨c, cs, hc, hslash, -⟩ := unslashed_intercalate (List.forall_mem_map.mpr ih) []
    refine ⟨'[', (", ".intercalate (items.map canonical)).toList ++ [']'], ?_, by decide,
      fun _ => ⟨c, cs, hc, hslash⟩⟩
    simp [canonical, canonicalItems_eq]
  | this => exact unslashed_cons _ (by decide) (by decide)
  | var hn => exact hn.unslashed
  | lambda _ _ _ =>
    simp only [canonical, String.toList_append, List.append_assoc]
    exact unslashed_cons _ (by decide) (by decide)
  | access _ _ ih =>
    simp only [canonical, String.toList_append, List.append_assoc]
    exact ih.append _
  | @call f positional named hn _ _ _ _ _ ih _ =>
    cases positional with
    | none =>
      simp only [canonical, String.toList_append]
      exact hn.unslashed.append _
    | some x =>
      -- The first argument stands before a dot, or in the brackets with the others.
      cases hx : x.prefersDot with
      | true =>
        simp only [canonical, hx, if_true, String.toList_append, List.append_assoc]
        exact (ih x rfl).append _
      | false =>
        simp only [canonical, hx, Bool.false_eq_true, if_false, String.toList_append,
          List.append_assoc]
        exact hn.unslashed.append _

/-- Without a first argument there are no arguments at all. -/
theorem named_eq_nil_of_accepted {f : Function} {named : List (String × Expr)}
    (h : f.signature.fault? false (named.map Prod.fst) = none) : named = [] := by
  cases hs : f.signature with
  | noArguments => simpa [hs, Signature.fault?] using h
  | oneArgument => cases named <;> simp [hs, Signature.fault?] at h
  | keyed keys => simp [hs, Signature.fault?] at h

theorem reads_named {key text : String} {ts : List Token} (hk : IsName key)
    (h : Reads text.toList ts) :
    Reads (key ++ "=" ++ text).toList (.identifier key :: .assign :: ts) := by
  intro rest us hf hrest
  have hassign := lexes_symbol (c := '=') (by decide) rfl (h rest us hf hrest)
  have := hk.lexes (heads_cons.mpr (by decide)) hassign
  simpa using this

/-- The canonical text of a tree is cut into the tokens of the tree. -/
theorem Formed.reads (hs : Spelled p spell) (h : Formed p registry e) :
    Reads e.canonical.toList (e.tokens spell) := by
  induction h with
  | literal hl => exact hs.reads _ hl
  | @list items hitems ih =>
    intro rest us hf hrest
    have hclose := lexes_symbol (c := ']') (by decide) rfl hrest
    have hread := Reads.intercalate ih _ _ (.delimiter (by decide)) hclose
    -- No item makes the bracket before it the start of a reference.
    have hopen := unslashed_intercalate
      (List.forall_mem_map.mpr fun x hx => (hitems x hx).unslashed hs) rest
    simpa [canonical, tokens, canonicalItems_eq, tokensItems_eq] using
      (spells_openBracket hopen.stripStart?_eq_none).lexes hread
  | this =>
    intro rest us hf hrest
    exact (spells_word 't' "his".toList (by decide) (List.all_eq_true.mp rfl)
      (hf.heads (by decide))).lexes hrest
  | var hn => exact fun rest us hf hrest => hn.lexes (hf.heads (by decide)) hrest
  | @lambda parameter body hp _ ih =>
    intro rest us hf hrest
    have hclose := lexes_symbol (c := ')') (by decide) rfl hrest
    have hbody := ih _ _ (.delimiter (by decide)) hclose
    have harrow := Lexes.blank (c := ' ') rfl
      ((spells_arrow _).lexes (Lexes.blank (c := ' ') rfl hbody))
    have hread := hp.lexes (heads_cons.mpr (by decide)) harrow
    simpa [canonical, tokens] using lexes_symbol (c := '(') (by decide) rfl hread
  | @access object name _ hn ih =>
    intro rest us hf hrest
    have hname := hn.lexes (hf.heads (by decide)) hrest
    have hdot := lexes_symbol (c := '.') (by decide) rfl hname
    simpa [canonical, tokens] using ih _ _ (hn.follows_dot rest) hdot
  | @call f positional named hn _ hfault _ hkeys _ ihp ihn =>
    intro rest us hf hrest
    have hclose := lexes_symbol (c := ')') (by decide) rfl hrest
    have hfollows : Follows (')' :: rest) := .delimiter (by decide)
    have hnamed (a) (ha : a ∈ named) := reads_named (hkeys a ha) (ihn a ha)
    cases positional with
    | none =>
      have hopen := lexes_symbol (c := '(') (by decide) rfl hclose
      simpa [canonical, tokens] using hn.lexes (heads_cons.mpr (by decide)) hopen
    | some x =>
      cases hx : x.prefersDot with
      | true =>
        have hread := Reads.intercalate hnamed _ _ hfollows hclose
        have hopen := lexes_symbol (c := '(') (by decide) rfl hread
        have hname := hn.lexes (heads_cons.mpr (by decide)) hopen
        have hdot := lexes_symbol (c := '.') (by decide) rfl hname
        simpa [canonical, tokens, hx, canonicalNamed_eq, tokensNamed_eq] using
          ihp x rfl _ _ (hn.follows_dot _) hdot
      | false =>
        have hall : ∀ a ∈ (x.canonical, x.tokens spell) :: named.map (fun a =>
            (a.1 ++ "=" ++ a.2.canonical, .identifier a.1 :: .assign :: a.2.tokens spell)),
            Reads a.1.toList a.2 := by
          simp only [List.forall_mem_cons, List.forall_mem_map]
          exact ⟨ihp x rfl, hnamed⟩
        have hread := Reads.intercalate hall _ _ hfollows hclose
        have hopen := lexes_symbol (c := '(') (by decide) rfl hread
        have := hn.lexes (heads_cons.mpr (by decide)) hopen
        simpa [canonical, tokens, hx, canonicalNamed_eq, tokensNamed_eq, Function.comp_def]
          using this

/-! ### Derivations -/

theorem derives_more {α : Type} {l : List α} {argument : α → Argument} {ts : α → List Token}
    (h : ∀ a ∈ l, Derives registry (.argument (argument a)) (ts a)) (hl : l ≠ []) :
    Derives registry (.more (l.map argument)) (.comma :: [Token.comma].intercalate (l.map ts)) := by
  induction l with
  | nil => exact absurd rfl hl
  | cons a l ih =>
    obtain ⟨ha, hl⟩ := List.forall_mem_cons.mp h
    cases l with
    | nil => simpa using Derives.next ha .last
    | cons b l => simpa using Derives.next ha (ih hl (by simp))

theorem derives_series {α : Type} {l : List α} {argument : α → Argument} {ts : α → List Token}
    (h : ∀ a ∈ l, Derives registry (.argument (argument a)) (ts a)) :
    Derives registry (.series (l.map argument)) ([Token.comma].intercalate (l.map ts)) := by
  cases l with
  | nil => exact .empty
  | cons a l =>
    obtain ⟨ha, hl⟩ := List.forall_mem_cons.mp h
    cases l with
    | nil => simpa using Derives.first ha .last
    | cons b l => simpa using Derives.first ha (derives_more hl (by simp))

theorem derives_primary {ts : List Token} (h : Derives registry (.primary e) ts) :
    Derives registry (.expression e) ts := by
  simpa using Derives.expression h (.nothing e)

/-- The tokens of a tree derive the tree, with its constants replaced as they are spelled. -/
theorem Formed.derives {f : Literal → Literal} (h : Formed p registry e) :
    Derives registry (.expression (e.mapLiterals f)) (e.tokens fun l => [.literal (f l)]) := by
  induction h with
  | literal _ => exact derives_primary (.literal _)
  | @list items _ ih =>
    have hitem (x) (hx : x ∈ items) : Derives registry (.argument (.positional (x.mapLiterals f)))
        (x.tokens fun l => [.literal (f l)]) := .positional (ih x hx)
    have hitems := derives_series hitem
    rw [mapLiterals, tokens, mapLiteralsItems_eq, tokensItems_eq]
    exact derives_primary (.list (by simpa [Function.comp_def] using hitems))
  | this => exact derives_primary .this
  | var _ => exact derives_primary (.var _)
  | lambda hp _ ih =>
    obtain ⟨_, _, _, _, _, hreserved⟩ := hp
    exact derives_primary (.lambda hreserved ih)
  | access _ _ ih => exact ih.andThen (.access (.nothing _))
  | @call g positional named _ hresolve hfault _ _ _ ihp ihn =>
    have hkeys : (named.map fun a => (a.1, a.2.mapLiterals f)).map Prod.fst =
        named.map Prod.fst := by simp
    have hnamed (a) (ha : a ∈ named) :
        Derives registry (.argument (.named a.1 (a.2.mapLiterals f)))
          (.identifier a.1 :: .assign :: a.2.tokens fun l => [.literal (f l)]) :=
      .named (ihn a ha)
    have hcallable : Callable registry g.name g (positional.map (mapLiterals f))
        (named.map fun a => (a.1, a.2.mapLiterals f)) :=
      ⟨hresolve, by rw [hkeys, Option.isSome_map]; exact hfault⟩
    rw [mapLiterals_call]
    cases positional with
    | none =>
      obtain rfl := named_eq_nil_of_accepted hfault
      exact derives_primary (.call hcallable .empty)
    | some x =>
      cases hx : x.prefersDot with
      | true =>
        have hseries := derives_series hnamed
        have hcall := Derives.dotCall (e := x.mapLiterals f) hcallable
          (by simpa [callArguments, Function.comp_def] using hseries) (.nothing _)
        simpa [tokens, hx, tokensNamed_eq] using (ihp x rfl).andThen hcall
      | false =>
        have hall : ∀ a ∈ (Argument.positional (x.mapLiterals f),
              x.tokens fun l => [.literal (f l)]) :: named.map (fun a =>
            (Argument.named a.1 (a.2.mapLiterals f),
              .identifier a.1 :: .assign :: a.2.tokens fun l => [.literal (f l)])),
            Derives registry (.argument a.1) a.2 := by
          simp only [List.forall_mem_cons, List.forall_mem_map]
          exact ⟨.positional (ihp x rfl), hnamed⟩
        have hcall := Derives.call hcallable
          (by simpa [callArguments, Function.comp_def] using derives_series hall)
        simpa [tokens, hx, tokensNamed_eq, Function.comp_def] using derives_primary hcall

theorem parse_of_lexes {text : String} {ts : List Token} (hl : Lexes text.toList ts)
    (hd : Derives registry (.expression e) ts) : parse registry text = .ok e := by
  obtain ⟨located, hread, rfl⟩ := hl.readAll
  exact parse_eq_ok_iff.mpr ⟨located, hread, hd⟩

/-- The canonical text of a well-formed tree is read as the tree with its constants read anew. -/
theorem WellFormed.parse_canonical (h : WellFormed registry e) :
    parse registry e.canonical = .ok e.reread := by
  have hl := Formed.reads spelled_writable h [] [] .nil .nil
  rw [List.append_nil, List.append_nil] at hl
  exact parse_of_lexes hl (Formed.derives h)

/-- Reading undoes canonical printing on every well-formed tree. -/
theorem parse_canonical_same (registry : Registry) {e : Expr} (h : WellFormed registry e) :
    ∃ e', parse registry e.canonical = .ok e' ∧ e.same e' = true :=
  ⟨e.reread, h.parse_canonical, e.same_reread⟩

/-- The tree of `[2.0, this.x].sort(by=(x -> [[/entry/a-1]]))`, whose decimal has the scale 0. -/
theorem parse_canonical_same_sort :
    ∃ e', parse {} (canonical (.call (.builtin .sort)
        (some (.list
          [.literal (.quantity ⟨⟨2, 0, by decide, by decide⟩, none⟩), .access .this "x"]))
        [("by", .lambda "x" (.literal (.entry ⟨"a-1"⟩)))])) = .ok e' ∧
      same (.call (.builtin .sort)
        (some (.list
          [.literal (.quantity ⟨⟨2, 0, by decide, by decide⟩, none⟩), .access .this "x"]))
        [("by", .lambda "x" (.literal (.entry ⟨"a-1"⟩)))]) e' = true := by
  have hx : IsName "x" := by decide
  have hby : IsName "by" := by decide
  have hsort : IsName "sort" := by decide
  have hid : IsReferenceId "a-1" := ⟨by decide, List.all_eq_true.mp rfl⟩
  refine parse_canonical_same {} (.call hsort rfl rfl ?_ ?_ ?_)
  · rintro _ ⟨⟩
    exact .list (by simpa using ⟨.literal trivial, .access .this hx⟩)
  · simpa using hby
  · simpa using .lambda hx (.literal hid)

end Expr

end GraphExpr
