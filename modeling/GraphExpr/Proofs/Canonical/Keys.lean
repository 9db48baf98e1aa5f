import GraphExpr.Proofs.Canonical.Idempotence
import GraphExpr.Value.Basic

/-! # Names of results

The result of an expression is cached under the identifier of the current entry, a colon and the
canonical text. A colon of the text stands behind a quote or an opening bracket of the text. So the
name tells the entry and the expression, unless the identifier of one entry goes on behind that of
another as such a text may begin.
-/

namespace GraphExpr

namespace Text

/-- A colon stands in the text only behind a quote or an opening bracket. -/
def Guarded (cs : List Char) : Prop :=
  ':' ∉ cs.takeWhile fun c => c != '"' && c != '['

variable {cs ds xs ys : List Char}

theorem guarded_of_not_mem (h : ':' ∉ cs) : Guarded cs :=
  fun hmem => h ((List.takeWhile_prefix _).subset hmem)

theorem guarded_quote (cs : List Char) : Guarded ('"' :: cs) := by
  simp [Guarded]

theorem guarded_bracket (cs : List Char) : Guarded ('[' :: cs) := by
  simp [Guarded]

theorem Guarded.append (hc : Guarded cs) (hd : Guarded ds) : Guarded (cs ++ ds) := by
  induction cs with
  | nil => exact hd
  | cons c cs ih =>
    unfold Guarded at hc ih ⊢
    rw [List.takeWhile_cons] at hc
    rw [List.cons_append, List.takeWhile_cons]
    split
    next hpass =>
      rw [if_pos hpass, List.mem_cons, not_or] at hc
      rw [List.mem_cons, not_or]
      exact ⟨hc.1, ih hc.2⟩
    next => exact List.not_mem_nil

theorem guarded_intercalate {texts : List String} (h : ∀ text ∈ texts, Guarded text.toList) :
    Guarded (", ".intercalate texts).toList := by
  rw [String.toList_intercalate]
  induction texts with
  | nil => exact guarded_of_not_mem List.not_mem_nil
  | cons text texts ih =>
    obtain ⟨htext, htexts⟩ := List.forall_mem_cons.mp h
    cases texts with
    | nil => simpa using htext
    | cons next texts =>
      rw [List.map_cons, List.map_cons, List.intercalate_cons_cons, ← List.map_cons]
      exact (htext.append (guarded_of_not_mem (by decide))).append (ih htexts)

theorem Guarded.mem_of_colon (h : Guarded (cs ++ ':' :: ds)) : '"' ∈ cs ∨ '[' ∈ cs := by
  by_contra hnone
  obtain ⟨hquote, hbracket⟩ := not_or.mp hnone
  apply h
  have hpass : ∀ c ∈ cs, (c != '"' && c != '[') = true := by
    intro c hc
    simp only [Bool.and_eq_true, bne_iff_ne]
    exact ⟨fun he => hquote (he ▸ hc), fun he => hbracket (he ▸ hc)⟩
  rw [List.takeWhile_append_of_pos hpass]
  exact List.mem_append_right cs (by simp)

/-- Two texts that are cut at a colon are cut at the same one, or one of them goes on behind the
first. -/
theorem eq_or_goesOn (h : xs ++ ':' :: cs = ys ++ ':' :: ds) :
    (xs = ys ∧ cs = ds) ∨ (∃ zs, ys = xs ++ ':' :: zs ∧ cs = zs ++ ':' :: ds) ∨
      ∃ zs, xs = ys ++ ':' :: zs ∧ ds = zs ++ ':' :: cs := by
  have hcut {xs ys cs ds zs : List Char} (hys : ys = xs ++ zs) (hcs : ':' :: cs = zs ++ ':' :: ds) :
      (xs = ys ∧ cs = ds) ∨ ∃ zs, ys = xs ++ ':' :: zs ∧ cs = zs ++ ':' :: ds := by
    cases zs with
    | nil => exact .inl ⟨by simp [hys], (List.cons.inj hcs).2⟩
    | cons z zs =>
      obtain ⟨rfl, htail⟩ := List.cons.inj hcs
      exact .inr ⟨zs, hys, htail⟩
  rcases List.append_eq_append_iff.mp h with ⟨zs, hys, hcs⟩ | ⟨zs, hxs, hds⟩
  · exact (hcut hys hcs).imp_right .inl
  · exact (hcut hxs hds).imp (fun he => ⟨he.1.symm, he.2.symm⟩) .inr

/-- The second identifier is the first with a colon behind it and a text that has a quote or an
opening bracket. -/
def Overruns (id longer : String) : Prop :=
  ∃ cs, longer.toList = id.toList ++ ':' :: cs ∧ ('"' ∈ cs ∨ '[' ∈ cs)

theorem Guarded.eq_of_key {id id' text text' : String} (ht : Guarded text.toList)
    (ht' : Guarded text'.toList) (hid : ¬ Overruns id id') (hid' : ¬ Overruns id' id)
    (h : id ++ ":" ++ text = id' ++ ":" ++ text') : id = id' ∧ text = text' := by
  have hcut : id.toList ++ ':' :: text.toList = id'.toList ++ ':' :: text'.toList := by
    simpa using congrArg String.toList h
  rcases eq_or_goesOn hcut with ⟨hids, htexts⟩ | ⟨cs, hlonger, htext⟩ | ⟨cs, hlonger, htext⟩
  · exact ⟨String.toList_inj.mp hids, String.toList_inj.mp htexts⟩
  · rw [htext] at ht
    exact absurd ⟨cs, hlonger, ht.mem_of_colon⟩ hid
  · rw [htext] at ht'
    exact absurd ⟨cs, hlonger, ht'.mem_of_colon⟩ hid'

end Text

/-! ### Canonical texts -/

open Text

theorem Token.IsName.guarded {s : String} (h : Token.IsName s) : Guarded s.toList := by
  obtain ⟨c, cs, hs, hc, hcs, -⟩ := h
  rw [hs]
  refine guarded_of_not_mem fun hmem => ?_
  rcases List.mem_cons.mp hmem with rfl | hmem
  · exact absurd hc (by decide)
  · exact absurd (hcs _ hmem) (by decide)

theorem Decimal.guarded_toText (d : Decimal) : Guarded d.toText.toList := by
  have hdigits {cs : List Char} (h : ∀ c ∈ cs, c.isDigit = true) : ':' ∉ cs :=
    fun hmem => absurd (h _ hmem) (by decide)
  have hwhole := hdigits fun c => d.isDigit_of_mem_wholeDigits (c := c)
  have hfraction := hdigits fun c => d.isDigit_of_mem_fractionDigits (c := c)
  rw [Token.toList_toText_sign]
  refine guarded_of_not_mem ?_
  unfold Token.signText
  split <;> split <;> simp [hwhole, hfraction]

theorem Literal.guarded_canonical (l : Literal) : Guarded l.canonical.toList := by
  cases l with
  | null => exact guarded_of_not_mem (by decide)
  | boolean b => cases b <;> exact guarded_of_not_mem (by decide)
  | integer n =>
    have hn : ':' ∉ Nat.toDigits 10 n.natAbs := fun hmem =>
      absurd (Nat.isDigit_of_mem_toDigits (by decide) (by decide) hmem) (by decide)
    rw [canonical, Token.toList_toString_int]
    refine guarded_of_not_mem ?_
    unfold Token.signText
    split <;> simp [hn]
  | quantity q =>
    obtain ⟨d, units⟩ := q
    cases units with
    | some units =>
      have hblank : Guarded [' '] := guarded_of_not_mem (by decide)
      simp only [canonical, Quantity.canonical, String.toList_append, List.append_assoc]
      exact d.guarded_toText.append (hblank.append (guarded_bracket _))
    | none =>
      rw [canonical, Quantity.canonical]
      dsimp only
      split
      · rw [String.toList_append]
        exact d.guarded_toText.append (guarded_of_not_mem (by decide))
      · exact d.guarded_toText
  | string s =>
    rw [canonical, stringText, String.toList_ofList]
    exact guarded_quote _
  | entry id => simpa [canonical, entryText] using guarded_bracket _
  | property id => simpa [canonical, propertyText] using guarded_bracket _
  | entryType id => simpa [canonical, entryTypeText] using guarded_bracket _

namespace Expr

variable {p : Literal → Prop} {registry : Registry} {e e' : Expr}

/-- By induction on the tree: its names have no colon, and lists start with a bracket. -/
theorem Formed.guarded (h : Formed p registry e) : Guarded e.canonical.toList := by
  have hplain {s : String} (h : ':' ∉ s.toList) : Guarded s.toList := guarded_of_not_mem h
  induction h with
  | literal _ => exact Literal.guarded_canonical _
  | list _ _ =>
    simp only [canonical, String.toList_append, List.append_assoc]
    exact guarded_bracket _
  | this => exact hplain (by decide)
  | var hname => exact hname.guarded
  | lambda hname _ ih =>
    simp only [canonical, String.toList_append]
    exact (((hplain (by decide)).append hname.guarded).append (hplain (by decide))).append ih
      |>.append (hplain (by decide))
  | access _ hname ih =>
    simp only [canonical, String.toList_append]
    exact (ih.append (hplain (by decide))).append hname.guarded
  | @call f positional named hname _ _ _ hkeys _ ihp ihn =>
    have hnamed : ∀ text ∈ named.map (fun a => a.1 ++ "=" ++ a.2.canonical),
        Guarded text.toList := by
      refine List.forall_mem_map.mpr fun a ha => ?_
      simp only [String.toList_append]
      exact ((hkeys a ha).guarded.append (hplain (by decide))).append (ihn a ha)
    cases positional with
    | none =>
      rw [canonical, String.toList_append]
      exact hname.guarded.append (hplain (by decide))
    | some x =>
      have hx := ihp x rfl
      rw [canonical, canonicalNamed_eq]
      split
      · simp only [String.toList_append]
        have hcall := (hx.append (hplain (s := ".") (by decide))).append hname.guarded
        have hopened := hcall.append (hplain (s := "(") (by decide))
        exact (hopened.append (guarded_intercalate hnamed)).append (hplain (by decide))
      · simp only [String.toList_append]
        have hall := guarded_intercalate (List.forall_mem_cons.mpr ⟨hx, hnamed⟩)
        exact ((hname.guarded.append (hplain (by decide))).append hall).append (hplain (by decide))

/-- What is named in the cache tells the entry and the expression. -/
theorem Formed.eq_of_key {entry entry' : Option EntryId}
    (he : Formed Literal.IsReadable registry e) (he' : Formed Literal.IsReadable registry e')
    (hid : ∀ id ∈ entry, id.text ≠ "") (hid' : ∀ id ∈ entry', id.text ≠ "")
    (hover : ¬ Overruns (entry.elim "" Id.text) (entry'.elim "" Id.text))
    (hover' : ¬ Overruns (entry'.elim "" Id.text) (entry.elim "" Id.text))
    (h : entry.elim "" Id.text ++ ":" ++ e.canonical =
      entry'.elim "" Id.text ++ ":" ++ e'.canonical) :
    entry = entry' ∧ e = e' := by
  obtain ⟨hentry, htext⟩ := he.guarded.eq_of_key he'.guarded hover hover' h
  refine ⟨?_, he.eq_of_canonical he' htext⟩
  cases entry with
  | none =>
    cases entry' with
    | none => rfl
    | some id' => exact absurd hentry.symm (hid' id' rfl)
  | some id =>
    cases entry' with
    | none => exact absurd hentry (hid id rfl)
    | some id' =>
      obtain ⟨text⟩ := id
      obtain ⟨text'⟩ := id'
      exact congrArg (fun text => some (Id.mk text)) hentry

end Expr

/-! ### Scopes -/

namespace Scope

variable {c c' : Context} {e e' : Expr} {key : String}

theorem key_eq_of_cacheKey? (h : c.cacheKey? e = some key) :
    c.bindings.isEmpty = true ∧ key = c.entry.elim "" Id.text ++ ":" ++ e.canonical := by
  unfold cacheKey? at h
  split at h
  next hempty => exact ⟨hempty, (Option.some.inj h).symm⟩
  next => cases h

/-- Results that are cached under one name are those of one expression at one entry, if no entry
has an empty identifier and none goes on behind the other with a colon and a text in which there is
a quote or an opening bracket. -/
theorem entry_eq_of_cacheKey? (plugins : List Plugin) {text text' : String}
    (he : Expr.parse (.ofPlugins plugins) text = .ok e)
    (he' : Expr.parse (.ofPlugins plugins) text' = .ok e')
    (hid : ∀ id ∈ c.entry, id.text ≠ "") (hid' : ∀ id ∈ c'.entry, id.text ≠ "")
    (hover : ¬ Overruns (c.entry.elim "" Id.text) (c'.entry.elim "" Id.text))
    (hover' : ¬ Overruns (c'.entry.elim "" Id.text) (c.entry.elim "" Id.text))
    (h : c.cacheKey? e = some key) (h' : c'.cacheKey? e' = some key) :
    c.entry = c'.entry ∧ e = e' := by
  have hnamed := Registry.named_ofPlugins plugins
  obtain ⟨-, hkey⟩ := key_eq_of_cacheKey? h
  obtain ⟨-, hkey'⟩ := key_eq_of_cacheKey? h'
  exact (Expr.readable_of_parse hnamed he).eq_of_key (Expr.readable_of_parse hnamed he')
    hid hid' hover hover' (hkey.symm.trans hkey')

def atEntry (id : String) (pageSize : Nat) : Context :=
  ⟨⟨"site"⟩, none, some ⟨id⟩, pageSize, [], 0⟩

/-- An identifier with a colon, and one expression in two spellings. -/
theorem entry_eq_of_cacheKey?_colon :
    ∃ e e', Expr.parse (.ofPlugins []) "5 [kg ]" = .ok e ∧
      Expr.parse (.ofPlugins []) "5 [kg]" = .ok e' ∧
      (atEntry "a:b" 10).cacheKey? e = some "a:b:5 [kg]" ∧
      (atEntry "a:b" 20).cacheKey? e' = some "a:b:5 [kg]" ∧
      (atEntry "a:b" 10).entry = (atEntry "a:b" 20).entry ∧ e = e' := by
  have hspaced : Expr.parse (.ofPlugins []) "5 [kg ]" =
      .ok (.literal (.quantity ⟨⟨5, 0, by decide, by decide⟩, some "kg"⟩)) := rfl
  have hplain : Expr.parse (.ofPlugins []) "5 [kg]" =
      .ok (.literal (.quantity ⟨⟨5, 0, by decide, by decide⟩, some "kg"⟩)) := rfl
  have hid (n : Nat) : ∀ id ∈ (atEntry "a:b" n).entry, id.text ≠ "" := by
    rintro _ ⟨⟩
    decide
  have hover : ¬ Overruns "a:b" "a:b" := by
    rintro ⟨cs, hcs, -⟩
    simpa using congrArg List.length hcs
  have hkey (n : Nat) : (atEntry "a:b" n).cacheKey?
      (.literal (.quantity ⟨⟨5, 0, by decide, by decide⟩, some "kg"⟩)) = some "a:b:5 [kg]" := rfl
  exact ⟨_, _, hspaced, hplain, hkey 10, hkey 20,
    entry_eq_of_cacheKey? [] hspaced hplain (hid 10) (hid 20) hover hover (hkey 10) (hkey 20)⟩

/-- The identifier of one entry goes on behind that of another as a list of a string begins. -/
theorem cacheKey?_of_overrun :
    ∃ e e' key, Expr.parse (.ofPlugins []) "[\"x:5 [\"]" = .ok e ∧
      Expr.parse (.ofPlugins []) "5 [\"]" = .ok e' ∧
      (atEntry "a" 10).cacheKey? e = some key ∧ (atEntry "a:[\"x" 10).cacheKey? e' = some key ∧
      (atEntry "a" 10).entry ≠ (atEntry "a:[\"x" 10).entry ∧ e ≠ e' :=
  ⟨.list [.literal (.string "x:5 [")],
    .literal (.quantity ⟨⟨5, 0, by decide, by decide⟩, some "\""⟩), "a:[\"x:5 [\"]",
    rfl, rfl, by decide +kernel, by decide +kernel, by decide, nofun⟩

end Scope

end GraphExpr
