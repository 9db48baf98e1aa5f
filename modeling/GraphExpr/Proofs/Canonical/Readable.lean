import GraphExpr.Proofs.Canonical.Tree
import GraphExpr.Proofs.Grammar.Soundness
import Mathlib.Data.List.DropRight

/-! # What is read

The names and constants of a tree that was read are those that tokens can have. A magnitude
without units has been read with a digit behind its point, and units may be empty.
-/

namespace GraphExpr

namespace Decimal

variable {negative : Bool} {coefficient scale : Nat} {d : Decimal}

theorem eq_of_ofParts? {numerator : Int} (h : ofParts? numerator scale = some d) :
    d.numerator = numerator ∧ d.scale = scale := by
  unfold ofParts? at h
  split at h
  · cases h
    exact ⟨rfl, rfl⟩
  · cases h

theorem pointed_of_signed? (h : signed? negative coefficient scale = some d)
    (hfull : scale ≠ 0 ∨ limit ≤ coefficient * 10) : d.pointed = d := by
  obtain ⟨hn, hs⟩ := eq_of_ofParts? h
  unfold pointed
  split
  next hroom =>
    obtain ⟨hscale, hroom⟩ := hroom
    rw [hn] at hroom
    rcases hfull with hfull | hfull
    · exact absurd (hs ▸ hscale) hfull
    · split at hroom <;> omega
  next => rfl

theorem pointed_of_rounded? {next : Char} (hd : next.isDigit = true) (hc : coefficient < limit)
    (h : rounded? negative coefficient scale next = some d)
    (hfull : scale = 0 → limit ≤ coefficient * 10 + digitValue next) : d.pointed = d := by
  have hnext := digitValue_le hd
  have hlimit : limit = 79228162514264337593543950336 := rfl
  unfold rounded? at h
  by_cases hdown : digitValue next < 5
  · rw [if_pos hdown] at h
    refine pointed_of_signed? h ?_
    omega
  · rw [if_neg hdown] at h
    by_cases hup : coefficient + 1 < limit
    · rw [if_pos hup] at h
      refine pointed_of_signed? h ?_
      omega
    · rw [if_neg hup] at h
      by_cases hscale : scale = 0
      · rw [if_pos hscale] at h
        cases h
      · rw [if_neg hscale] at h
        refine pointed_of_signed? h ?_
        omega

theorem pointed_of_readFraction? {digits : List Char} (hd : ∀ c ∈ digits, c.isDigit = true)
    (hc : coefficient < limit) (hscale : scale ≠ 0 ∨ digits ≠ [])
    (h : readFraction? negative coefficient scale digits = some d) : d.pointed = d := by
  induction digits generalizing coefficient scale with
  | nil =>
    rcases hscale with hscale | hscale
    · exact pointed_of_signed? h (.inl hscale)
    · exact absurd rfl hscale
  | cons c rest ih =>
    obtain ⟨hdigit, hrest⟩ := List.forall_mem_cons.mp hd
    rw [readFraction?] at h
    split at h
    next hroom => exact ih hrest hroom.2 (.inl (Nat.succ_ne_zero _)) h
    next hroom =>
      refine pointed_of_rounded? hdigit hc h ?_
      rintro rfl
      by_contra hlt
      exact hroom ⟨by decide, Nat.lt_of_not_le hlt⟩

theorem pointed_of_ofNumeral? {whole fraction : List Char}
    (hd : ∀ c ∈ fraction, c.isDigit = true) (hf : fraction ≠ [])
    (h : ofNumeral? negative whole fraction = some d) : d.pointed = d := by
  unfold ofNumeral? at h
  split at h
  next hw => exact pointed_of_readFraction? hd hw (.inr hf) h
  next => cases h

end Decimal

namespace Text

theorem trimStart_trimEnd {cs : List Char} (h : trimStart cs = cs) :
    trimStart (trimEnd cs) = trimEnd cs := by
  obtain ⟨rest, hrest⟩ := cs.rdropWhile_prefix isBlank
  unfold trimStart at h ⊢
  rw [List.dropWhile_eq_self_iff] at h ⊢
  intro hlen
  have hcs : 0 < cs.length := by
    rw [← hrest, List.length_append]
    exact Nat.lt_of_lt_of_le hlen (Nat.le_add_right _ _)
  have hhead : (trimEnd cs)[0] = cs[0] := by
    have hget : (trimEnd cs ++ rest)[0]? = cs[0]? := congrArg (·[0]?) hrest
    rw [List.getElem?_append_left hlen, List.getElem?_eq_getElem hlen,
      List.getElem?_eq_getElem hcs] at hget
    exact Option.some.inj hget
  rw [hhead]
  exact h hcs

theorem trim_trim (cs : List Char) : trim (trim cs) = trim cs := by
  have hstart : trimStart (trimStart cs) = trimStart cs := List.dropWhile_idempotent _ _
  rw [trim, trim, trimStart_trimEnd hstart]
  exact List.rdropWhile_idempotent _ _

theorem mem_of_mem_trim {c : Char} {cs : List Char} (h : c ∈ trim cs) : c ∈ cs :=
  List.dropWhile_subset _ ((List.rdropWhile_prefix _ _).subset h)

end Text

namespace Literal

/-- A constant that a token can have. -/
def IsReadable : Literal → Prop
  | quantity ⟨_, some units⟩ =>
    Text.trim units.toList = units.toList ∧ ∀ c ∈ units.toList, Token.isUnitChar c = true
  | quantity ⟨magnitude, none⟩ => magnitude.pointed = magnitude
  | entry id => Token.IsReferenceId id.text
  | property id => Token.IsReferenceId id.text
  | entryType id => Token.IsReferenceId id.text
  | _ => True

end Literal

namespace Token

def IsReadable : Token → Prop
  | identifier name => IsName name
  | literal value => value.IsReadable
  | _ => True

variable {cs rest : List Char}

theorem readable_string {l : Literal} (h : readString? cs = some (l, rest)) : l.IsReadable := by
  unfold readString? at h
  split at h
  · obtain ⟨⟨s, _⟩, _, hl⟩ := Option.map_eq_some_iff.mp h
    cases hl
    trivial
  · cases h

theorem isReferenceId_of_readReferenceEnd? {id : String}
    (h : readReferenceEnd? cs = some (id, rest)) : IsReferenceId id := by
  unfold readReferenceEnd? at h
  split at h
  next c ds rest' htake _ =>
    cases h
    constructor
    · intro hempty
      simpa using congrArg String.toList hempty
    · intro d hd
      rw [String.toList_ofList, ← htake] at hd
      exact List.mem_takeWhile_imp hd
  next => cases h

theorem readable_reference {l : Literal} (h : readReference? cs = some (l, rest)) :
    l.IsReadable := by
  have hsort (name : String) (literal : String → Literal) {ds : List Char}
      (hs : (do
        let found ← readReferenceEnd? (← stripStart? name.toList ds)
        some (literal found.1, found.2)) = some (l, rest)) :
      ∃ id, IsReferenceId id ∧ l = literal id := by
    obtain ⟨es, _, hs⟩ := Option.bind_eq_some_iff.mp hs
    obtain ⟨⟨id, _⟩, hid, hs⟩ := Option.bind_eq_some_iff.mp hs
    cases hs
    exact ⟨id, isReferenceId_of_readReferenceEnd? hid, rfl⟩
  obtain ⟨ds, _, h⟩ := Option.bind_eq_some_iff.mp h
  simp only [Option.orElse_eq_orElse, Option.orElse_eq_or, Option.or_eq_some_iff] at h
  rcases h with h | ⟨_, h | ⟨_, h⟩⟩
  · obtain ⟨id, hid, rfl⟩ := hsort "entry/" (.entry ⟨·⟩) h
    exact hid
  · obtain ⟨id, hid, rfl⟩ := hsort "prop/" (.property ⟨·⟩) h
    exact hid
  · obtain ⟨id, hid, rfl⟩ := hsort "etype/" (.entryType ⟨·⟩) h
    exact hid

theorem readUnits?_eq_some {units : String} (h : readUnits? cs = some (units, rest)) :
    Text.trim units.toList = units.toList ∧ ∀ c ∈ units.toList, isUnitChar c = true := by
  unfold readUnits? at h
  split at h
  next gap ds hgap =>
    split at h
    next c es rest' htake _ =>
      cases h
      rw [String.toList_ofList]
      refine ⟨Text.trim_trim _, fun d hd => ?_⟩
      have hmem := Text.mem_of_mem_trim hd
      rw [← htake] at hmem
      exact List.mem_takeWhile_imp hmem
    next => cases h
  next => cases h

theorem readFraction_eq_some {digits : List Char} (h : (readFraction cs).1 = some digits) :
    digits ≠ [] ∧ ∀ c ∈ digits, c.isDigit = true := by
  unfold readFraction at h
  split at h
  next ds =>
    split at h
    · cases h
    next htake =>
      cases h
      refine ⟨htake, fun c hc => List.mem_takeWhile_imp hc⟩
  next => cases h

theorem readable_number {l : Literal} (h : readNumber? cs = some (l, rest)) : l.IsReadable := by
  unfold readNumber? at h
  dsimp only at h
  split at h
  · cases h
  · split at h
    next units _ hunits =>
      obtain ⟨_, _, h⟩ := Option.bind_eq_some_iff.mp h
      cases h
      exact readUnits?_eq_some hunits
    next hfraction =>
      obtain ⟨_, hm, h⟩ := Option.bind_eq_some_iff.mp h
      cases h
      obtain ⟨hne, hd⟩ := readFraction_eq_some hfraction
      exact Decimal.pointed_of_ofNumeral? hd hne hm
    next =>
      cases h
      trivial

theorem readable_word {t : Token} (h : readWord? cs = some (t, rest)) : t.IsReadable := by
  unfold readWord? at h
  split at h
  next c ds =>
    split at h
    next hc =>
      cases h
      unfold ofWord
      split
      · trivial
      · split
        · trivial
        · split
          · trivial
          · split
            · trivial
            next htrue hfalse hnull hthis =>
              refine ⟨c, ds.takeWhile isWordChar, String.toList_ofList, hc,
                fun d hd => List.mem_takeWhile_imp hd, ?_⟩
              simp only [isReserved, Bool.or_eq_false_iff, beq_eq_false_iff_ne]
              exact ⟨⟨⟨hthis, htrue⟩, hfalse⟩, hnull⟩
    next => cases h
  next => cases h

theorem readable_symbol {t : Token} (h : readSymbol? cs = some (t, rest)) : t.IsReadable := by
  unfold readSymbol? at h
  split at h <;> cases h <;> trivial

theorem readable_read? {t : Token} (h : read? cs = some (t, rest)) : t.IsReadable := by
  have hliteral {read : List Char → Option (Literal × List Char)}
      (hread : ∀ l, read cs = some (l, rest) → l.IsReadable)
      (h : (read cs).map (fun r => (Token.literal r.1, r.2)) = some (t, rest)) :
      t.IsReadable := by
    obtain ⟨⟨l, _⟩, hl, ht⟩ := Option.map_eq_some_iff.mp h
    cases ht
    exact hread l hl
  unfold read? at h
  simp only [Option.orElse_eq_orElse, Option.orElse_eq_or, Option.or_eq_some_iff] at h
  rcases h with h | ⟨_, h | ⟨_, h | ⟨_, h | ⟨_, h⟩⟩⟩⟩
  · exact hliteral (fun _ => readable_string) h
  · exact hliteral (fun _ => readable_reference) h
  · exact hliteral (fun _ => readable_number) h
  · exact readable_word h
  · exact readable_symbol h

theorem readable_readAllFor {steps : Nat} {position : Position} {located : List Located}
    (h : readAllFor steps position cs = .ok located) : ∀ t ∈ located, t.token.IsReadable := by
  induction steps generalizing position cs located with
  | zero =>
    cases cs with
    | nil =>
      cases h
      simp
    | cons _ _ => cases h
  | succ steps ih =>
    cases cs with
    | nil =>
      cases h
      simp
    | cons c cs =>
      rw [readAllFor] at h
      split at h
      · exact ih h
      · split at h
        · cases h
        next hread =>
          obtain ⟨more, hmore, rfl⟩ := map_eq_ok h
          exact List.forall_mem_cons.mpr ⟨readable_read? hread, ih hmore⟩

/-- The names and constants of the tokens of a text can be read. -/
theorem readable_readAll {text : String} {located : List Located}
    (h : readAll text = .ok located) : ∀ t ∈ located, t.token.IsReadable :=
  readable_readAllFor h

end Token

namespace Registry

/-- The functions of the registry are found under their own names. -/
def Named (registry : Registry) : Prop :=
  ∀ name f, registry.resolve? name = some f → f.name = name

theorem named_builtin : Named {} := by
  intro name f h
  unfold resolve? at h
  split at h
  next b hname =>
    cases h
    unfold Builtin.ofName? at hname
    have hb := List.find?_some hname
    exact beq_iff_eq.mp hb
  next => cases h

end Registry

namespace Grammar

open Token GraphExpr.Expr

variable {registry : Registry}

def Argument.Readable (registry : Registry) : Argument → Prop
  | positional e => Formed Literal.IsReadable registry e
  | named key e => IsName key ∧ Formed Literal.IsReadable registry e

def Phrase.Readable (registry : Registry) : Phrase → Prop
  | expression e => Formed Literal.IsReadable registry e
  | primary e => Formed Literal.IsReadable registry e
  | followUps receiver result =>
    Formed Literal.IsReadable registry receiver → Formed Literal.IsReadable registry result
  | argument a => a.Readable registry
  | series arguments => ∀ a ∈ arguments, a.Readable registry
  | more arguments => ∀ a ∈ arguments, a.Readable registry

theorem Callable.readable (hregistry : registry.Named) {name : String} {f : Function}
    {positional : Option Expr} {named : List (String × Expr)}
    (h : Callable registry name f positional named) (hname : IsName name)
    (hargs : ∀ a ∈ callArguments positional named, a.Readable registry) :
    Formed Literal.IsReadable registry (.call f positional named) := by
  obtain rfl := hregistry _ _ h.resolved
  have hnamed (a) (ha : a ∈ named) : IsName a.1 ∧ Formed Literal.IsReadable registry a.2 :=
    hargs (.named a.1 a.2) (List.mem_append_right _ (List.mem_map_of_mem ha))
  refine .call hname h.resolved h.accepted ?_ (fun a ha => (hnamed a ha).1)
    (fun a ha => (hnamed a ha).2)
  rintro x ⟨⟩
  exact hargs (.positional x) (by simp [callArguments])

theorem Derives.readable (hregistry : registry.Named) {phrase : Phrase} {ts : List Token}
    (h : Derives registry phrase ts) (hts : ∀ t ∈ ts, t.IsReadable) : phrase.Readable registry := by
  induction h with
  | expression _ _ ihp ihf =>
    obtain ⟨hp, hf⟩ := List.forall_mem_append.mp hts
    exact ihf hf (ihp hp)
  | literal value => exact .literal (hts (.literal value) (by simp))
  | list _ ih =>
    refine .list fun x hx => ih (fun t ht => hts t (by simp [ht])) (.positional x) ?_
    exact List.mem_map_of_mem hx
  | this => exact .this
  | lambda _ _ ih =>
    exact .lambda (hts (.identifier _) (by simp)) (ih fun t ht => hts t (by simp [ht]))
  | parenthesized _ ih => exact ih fun t ht => hts t (by simp [ht])
  | call hc _ ih =>
    exact hc.readable hregistry (hts (.identifier _) (by simp))
      (ih fun t ht => hts t (by simp [ht]))
  | var name => exact .var (hts (.identifier name) (by simp))
  | nothing e => exact id
  | access _ ih =>
    intro he
    exact ih (fun t ht => hts t (by simp [ht])) (.access he (hts (.identifier _) (by simp)))
  | dotCall hc _ _ ihs ihf =>
    intro he
    refine ihf (fun t ht => hts t (by simp [ht]))
      (hc.readable hregistry (hts (.identifier _) (by simp)) ?_)
    rintro a ha
    rcases List.mem_cons.mp ha with rfl | ha
    · exact he
    · exact ihs (fun t ht => hts t (by simp [ht])) a ha
  | positional _ ih => exact ih hts
  | named _ ih =>
    exact ⟨hts (.identifier _) (by simp), ih fun t ht => hts t (by simp [ht])⟩
  | empty => simp [Phrase.Readable]
  | first _ _ iha ihs =>
    obtain ⟨ha, hs⟩ := List.forall_mem_append.mp hts
    exact List.forall_mem_cons.mpr ⟨iha ha, ihs hs⟩
  | last => simp [Phrase.Readable]
  | trailing => simp [Phrase.Readable]
  | next _ _ iha ihs =>
    obtain ⟨ha, hs⟩ := List.forall_mem_append.mp (List.forall_mem_cons.mp hts).2
    exact List.forall_mem_cons.mpr ⟨iha ha, ihs hs⟩

end Grammar

/-- A tree that was read has names and constants that can be read. -/
theorem Expr.readable_of_parse {registry : Registry} (hregistry : registry.Named) {text : String}
    {e : Expr} (h : parse registry text = .ok e) : Formed Literal.IsReadable registry e := by
  obtain ⟨located, hread, hd⟩ := Grammar.parse_eq_ok_iff.mp h
  refine hd.readable hregistry fun t ht => ?_
  obtain ⟨l, hl, rfl⟩ := List.mem_map.mp ht
  exact Token.readable_readAll hread l hl

end GraphExpr
