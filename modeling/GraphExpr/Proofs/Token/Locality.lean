import Mathlib.Data.Option.Basic
import GraphExpr.Proofs.Canonical.Constant

/-! # Locality of tokens

A token that is read from a text is read again where less of the text follows, and where nothing
does. Strings, references and units end with a character of their own, so that what follows them
does not matter at all. A word or a number ends at the first character that cannot continue it.
-/

namespace GraphExpr.Token

variable {α : Type} {cs rest rest' : List Char} {t : Token}

theorem Heads.of_initial {p : Char → Bool} (h : Heads p rest) (hp : rest' <+: rest) :
    Heads p rest' := by
  obtain ⟨more, rfl⟩ := hp
  cases rest' with
  | nil => exact heads_nil p
  | cons c cs => exact heads_cons.mpr (heads_cons.mp h)

theorem heads_dropWhile (p : Char → Bool) (cs : List Char) :
    Heads (fun c => !p c) (cs.dropWhile p) := by
  intro c hc
  have h := List.head?_dropWhile_not p cs
  rw [Option.mem_def.mp hc] at h
  simpa using h

/-- A token is cut from a text so that it is read again where less of the text follows. -/
def Cut (t : Token) (cs rest : List Char) : Prop :=
  ∃ spelling, cs = spelling ++ rest ∧ ∀ rest', rest' <+: rest → Spells t spelling rest'

/-! ### Readers that stop by themselves -/

/-- What is read does not depend on what follows it. -/
def SelfDelimiting (read : List Char → Option (α × List Char)) : Prop :=
  ∀ ⦃cs a rest⦄, read cs = some (a, rest) →
    ∃ spelling, cs = spelling ++ rest ∧ ∀ rest', read (spelling ++ rest') = some (a, rest')

theorem SelfDelimiting.eq_none {read : List Char → Option (α × List Char)}
    (h : SelfDelimiting read) (hp : rest' <+: rest) (hnone : read rest = none) :
    read rest' = none := by
  obtain ⟨more, rfl⟩ := hp
  refine Option.eq_none_iff_forall_ne_some.mpr fun ⟨a, left⟩ hsome => ?_
  obtain ⟨spelling, rfl, hread⟩ := h hsome
  rw [List.append_assoc, hread] at hnone
  cases hnone

theorem readQuoted?_cons {c : Char} (hq : c ≠ '"') (hb : c ≠ '\\') (cs : List Char) :
    readQuoted? (c :: cs) = (readQuoted? cs).map fun (read, rest) => (c :: read, rest) := by
  rw [readQuoted?]
  · cases readQuoted? cs <;> rfl
  · exact hq
  · exact fun _ _ h _ => hb h
  · exact fun h _ => hb h

theorem selfDelimiting_readQuoted? : SelfDelimiting readQuoted? := by
  intro cs
  fun_induction readQuoted? cs with
  | case1 rest =>
    rintro a left ⟨⟩
    exact ⟨['"'], rfl, fun _ => rfl⟩
  | case2 e rest ih =>
    intro a left h
    obtain ⟨c, hc, h⟩ := Option.bind_eq_some_iff.mp h
    obtain ⟨⟨cs, left⟩, hr, ⟨⟩⟩ := Option.bind_eq_some_iff.mp h
    obtain ⟨spelling, rfl, hread⟩ := ih hr
    exact ⟨'\\' :: e :: spelling, rfl, fun rest' => by simp [readQuoted?, hc, hread]⟩
  | case3 => simp
  | case4 c rest hq he hend ih =>
    intro a left h
    obtain ⟨⟨cs, left⟩, hr, ⟨⟩⟩ := Option.bind_eq_some_iff.mp h
    have hb : c ≠ '\\' := by
      rintro rfl
      cases rest with
      | nil => exact hend rfl rfl
      | cons e rest => exact he e rest rfl rfl
    obtain ⟨spelling, rfl, hread⟩ := ih hr
    exact ⟨c :: spelling, rfl, fun rest' => by simp [readQuoted?_cons hq hb, hread]⟩
  | case5 => simp

theorem selfDelimiting_readString? : SelfDelimiting readString? := by
  intro cs value rest h
  unfold readString? at h
  split at h
  · obtain ⟨⟨read, left⟩, hr, ⟨⟩⟩ := Option.map_eq_some_iff.mp h
    obtain ⟨spelling, rfl, hread⟩ := selfDelimiting_readQuoted? hr
    exact ⟨'"' :: spelling, rfl, fun rest' => by simp [readString?, hread]⟩
  · cases h

theorem stripStart?_eq_some_iff {ps cs rest : List Char} :
    stripStart? ps cs = some rest ↔ cs = ps ++ rest := by
  constructor
  · intro h
    fun_induction stripStart? ps cs with
    | case1 => simpa using h
    | case2 p ps cs ih => simpa using ih h
    | case3 => cases h
    | case4 => cases h
  · rintro rfl
    exact stripStart?_append ps rest

theorem of_readReferenceEnd? {id : String} (h : readReferenceEnd? cs = some (id, rest)) :
    IsReferenceId id ∧ cs = id.toList ++ ']' :: ']' :: rest := by
  unfold readReferenceEnd? at h
  split at h
  · next c name left htake hdrop =>
    obtain ⟨rfl, rfl⟩ : String.ofList (c :: name) = id ∧ left = rest := by simpa using h
    refine ⟨⟨by simp [← String.toList_inj], ?_⟩, ?_⟩
    · rw [String.toList_ofList, ← htake]
      exact List.all_eq_true.mp List.all_takeWhile
    · rw [String.toList_ofList, ← htake, ← hdrop, List.takeWhile_append_dropWhile]
  · cases h

theorem selfDelimiting_readReference? : SelfDelimiting readReference? := by
  intro cs value rest h
  obtain ⟨body, hbody, h⟩ := Option.bind_eq_some_iff.mp h
  rw [stripStart?_eq_some_iff.mp hbody]
  have hsort {name : String} {literal : String → Literal}
      (hsort : (name = "entry/" ∧ literal = (.entry ⟨·⟩)) ∨
        (name = "prop/" ∧ literal = (.property ⟨·⟩)) ∨
        (name = "etype/" ∧ literal = (.entryType ⟨·⟩)))
      (h : ((stripStart? name.toList body).bind fun cs => (readReferenceEnd? cs).bind fun read =>
        some (literal read.1, read.2)) = some (value, rest)) :
      ∃ spelling, "[[/".toList ++ body = spelling ++ rest ∧
        ∀ rest', readReference? (spelling ++ rest') = some (value, rest') := by
    obtain ⟨cs, hcs, h⟩ := Option.bind_eq_some_iff.mp h
    obtain ⟨⟨id, left⟩, hr, ⟨⟩⟩ := Option.bind_eq_some_iff.mp h
    obtain ⟨hid, rfl⟩ := of_readReferenceEnd? hr
    rw [stripStart?_eq_some_iff.mp hcs]
    refine ⟨"[[/".toList ++ (name.toList ++ (id.toList ++ [']', ']'])), ?_, fun rest' => ?_⟩
    · simp only [List.append_assoc, List.cons_append, List.nil_append]
    · have hread := readReference?_sort hid rest' literal hsort
      simpa only [List.append_assoc, List.cons_append, List.nil_append] using hread
  rcases (Option.orElse_eq_some _ _ _).mp h with h | ⟨-, h⟩
  · exact hsort (.inl ⟨rfl, rfl⟩) h
  · rcases (Option.orElse_eq_some _ _ _).mp h with h | ⟨-, h⟩
    · exact hsort (.inr (.inl ⟨rfl, rfl⟩)) h
    · exact hsort (.inr (.inr ⟨rfl, rfl⟩)) h

theorem of_readUnits? {units : String} (h : readUnits? cs = some (units, rest)) :
    ∃ gap name, cs = gap ++ '[' :: (name ++ ']' :: rest) ∧ (∀ c ∈ gap, isUnitGap c = true) ∧
      name ≠ [] ∧ (∀ c ∈ name, isUnitChar c = true) ∧ units = String.ofList (Text.trim name) := by
  unfold readUnits? at h
  split at h
  · next inner hgap =>
    split at h
    · next c name left htake hdrop =>
      obtain ⟨rfl, rfl⟩ : String.ofList (Text.trim (c :: name)) = units ∧ left = rest := by
        simpa using h
      refine ⟨cs.takeWhile isUnitGap, c :: name, ?_, List.all_eq_true.mp List.all_takeWhile,
        List.cons_ne_nil _ _, ?_, rfl⟩
      · rw [← htake, ← hdrop, List.takeWhile_append_dropWhile, ← hgap,
          List.takeWhile_append_dropWhile]
      · rw [← htake]
        exact List.all_eq_true.mp List.all_takeWhile
    · cases h
  · cases h

theorem selfDelimiting_readUnits? : SelfDelimiting readUnits? := by
  intro cs units rest h
  obtain ⟨gap, name, rfl, hgap, hne, hname, rfl⟩ := of_readUnits? h
  refine ⟨gap ++ '[' :: (name ++ [']']), by simp, fun rest' => ?_⟩
  simpa using readUnits?_eq _ hgap hne hname rest'

/-! ### Numbers -/

theorem readFraction_eq_none_iff :
    readFraction cs = (none, cs) ↔ ∀ c tail, cs = '.' :: c :: tail → c.isDigit = false := by
  cases cs with
  | nil => simp [readFraction]
  | cons d cs =>
    by_cases hd : d = '.'
    · subst hd
      cases cs with
      | nil => simp [readFraction]
      | cons c tail => cases hc : c.isDigit <;> simp [readFraction, hc]
    · simp [readFraction, hd]

theorem EndsDigits.of_initial {fraction : Option (List Char)} (h : EndsDigits fraction rest)
    (hp : rest' <+: rest) : EndsDigits fraction rest' := by
  refine ⟨h.heads.of_initial hp, fun hf => readFraction_eq_none_iff.mpr ?_⟩
  rintro c tail rfl
  obtain ⟨more, rfl⟩ := hp
  exact readFraction_eq_none_iff.mp (h.readFraction_eq hf) c (tail ++ more) rfl

theorem eq_signText_append (cs : List Char) :
    cs = signText (readSign cs).1 ++ (readSign cs).2 := by
  unfold readSign
  split <;> simp [signText]

theorem eq_fractionText_append (cs : List Char) :
    cs = fractionText (readFraction cs).1 ++ (readFraction cs).2 ∧
      ∀ digits ∈ (readFraction cs).1, digits ≠ [] ∧ ∀ c ∈ digits, c.isDigit = true := by
  unfold readFraction
  split
  · next rest =>
    split
    · simp [fractionText]
    · next digits hdigits =>
      refine ⟨?_, ?_⟩
      · simp [fractionText, List.takeWhile_append_dropWhile]
      · rintro _ ⟨⟩
        exact ⟨hdigits, List.all_eq_true.mp List.all_takeWhile⟩
  · simp [fractionText]

theorem endsDigits_readFraction (h : Heads (fun c => !c.isDigit) cs) :
    EndsDigits (readFraction cs).1 (readFraction cs).2 := by
  unfold readFraction
  split
  · next rest =>
    split
    · next hdigits => exact ⟨h, fun _ => by simp [readFraction, hdigits]⟩
    · exact ⟨heads_dropWhile _ _, by simp⟩
  · next hdot =>
    refine ⟨h, fun _ => readFraction_eq_none_iff.mpr fun c tail heq => absurd heq (hdot _)⟩

theorem exists_digits {value : Literal} (h : readNumber? cs = some (value, rest)) :
    ∃ negative whole fraction tail,
      cs = signText negative ++ (whole ++ (fractionText fraction ++ tail)) ∧ whole ≠ [] ∧
      (∀ c ∈ whole, c.isDigit = true) ∧
      (∀ digits ∈ fraction, digits ≠ [] ∧ ∀ c ∈ digits, c.isDigit = true) ∧
      EndsDigits fraction tail := by
  obtain ⟨htext, hfraction⟩ := eq_fractionText_append ((readSign cs).2.dropWhile Char.isDigit)
  have hwhole : (readSign cs).2.takeWhile Char.isDigit ≠ [] := fun hnil => by
    simp [readNumber?, hnil] at h
  refine ⟨(readSign cs).1, (readSign cs).2.takeWhile Char.isDigit, _, _, ?_, hwhole,
    List.all_eq_true.mp List.all_takeWhile, hfraction,
    endsDigits_readFraction (heads_dropWhile _ _)⟩
  rw [← htext, List.takeWhile_append_dropWhile]
  exact eq_signText_append cs

theorem cut_number {value : Literal} (h : readNumber? cs = some (value, rest)) :
    Cut (.literal value) cs rest := by
  obtain ⟨negative, whole, fraction, tail, rfl, hw, hd, hf, htail⟩ := exists_digits h
  rw [readNumber?_eq hw hd negative fraction hf htail] at h
  obtain ⟨value, hvalue, heq⟩ := Option.map_eq_some_iff.mp h
  cases hunits : readUnits? tail with
  | none =>
    obtain ⟨rfl, rfl⟩ : value = _ ∧ tail = rest := by simpa [hunits] using heq
    refine ⟨signText negative ++ (whole ++ fractionText fraction), by simp, fun rest' hp => ?_⟩
    have hnone := selfDelimiting_readUnits?.eq_none hp hunits
    refine spells_number hw hd ?_
    simp only [hunits, Option.map_none] at hvalue
    have hread := readNumber?_eq hw hd negative fraction hf (htail.of_initial hp)
    simpa [hnone, hvalue] using hread
  | some read =>
    obtain ⟨units, left⟩ := read
    obtain ⟨rfl, rfl⟩ : value = _ ∧ left = rest := by simpa [hunits] using heq
    obtain ⟨spelling, rfl, hspelling⟩ := selfDelimiting_readUnits? hunits
    refine ⟨signText negative ++ (whole ++ (fractionText fraction ++ spelling)), by simp,
      fun rest' _ => spells_number hw hd ?_⟩
    simp only [hunits, Option.map_some] at hvalue
    have hread := readNumber?_eq hw hd negative fraction hf
      (endsDigits_of_readUnits? (hspelling rest'))
    simpa [hspelling, hvalue] using hread

/-! ### Every class of tokens -/

theorem cut_string {value : Literal} (h : readString? cs = some (value, rest)) :
    Cut (.literal value) cs rest := by
  obtain ⟨spelling, rfl, hread⟩ := selfDelimiting_readString? h
  refine ⟨spelling, rfl, fun rest' _ => ⟨?_, by simp [read?, hread]⟩⟩
  have hhead := hread []
  unfold readString? at hhead
  split at hhead
  · next heq =>
    rw [List.append_nil] at heq
    simp [heq, isSeparator]
  · cases hhead

theorem cut_reference {value : Literal} (h : readReference? cs = some (value, rest)) :
    Cut (.literal value) cs rest := by
  obtain ⟨spelling, rfl, hread⟩ := selfDelimiting_readReference? h
  have hhead : (String.ofList spelling).toList.head? = some '[' := by
    obtain ⟨body, hbody, -⟩ := Option.bind_eq_some_iff.mp (hread [])
    have heq := stripStart?_eq_some_iff.mp hbody
    rw [List.append_nil] at heq
    simp [heq]
  refine ⟨spelling, rfl, fun rest' _ => ?_⟩
  have hspells : Spells (.literal value) (String.ofList spelling).toList rest' :=
    spells_reference hhead (by simpa using hread rest')
  rwa [String.toList_ofList] at hspells

theorem cut_word (h : readWord? cs = some (t, rest)) : Cut t cs rest := by
  cases cs with
  | nil => cases h
  | cons c cs =>
    cases hc : isWordStart c with
    | false => simp [readWord?, hc] at h
    | true =>
      obtain ⟨rfl, rfl⟩ : ofWord (String.ofList (c :: cs.takeWhile isWordChar)) = t ∧
        cs.dropWhile isWordChar = rest := by simpa [readWord?, hc] using h
      refine ⟨c :: cs.takeWhile isWordChar, by simp [List.takeWhile_append_dropWhile],
        fun rest' hp => ?_⟩
      exact spells_word c _ hc (List.all_eq_true.mp List.all_takeWhile)
        ((heads_dropWhile isWordChar cs).of_initial hp)

theorem cut_symbol (h : readSymbol? cs = some (t, rest)) (hnone : readReference? cs = none) :
    Cut t cs rest := by
  have hplain {c : Char} (hc : isPlainSymbol c = true)
      (ht : ∀ rest', readSymbol? (c :: rest') = some (t, rest')) : Cut t (c :: rest) rest :=
    ⟨[c], rfl, fun rest' _ => spells_symbol rest' hc (ht rest')⟩
  unfold readSymbol? at h
  split at h <;> cases h
  · exact ⟨['-', '>'], rfl, fun rest' _ => spells_arrow rest'⟩
  · exact hplain (by decide) fun _ => rfl
  · exact hplain (by decide) fun _ => rfl
  · exact hplain (by decide) fun _ => rfl
  · exact hplain (by decide) fun _ => rfl
  · next rest =>
    refine ⟨['['], rfl, fun rest' hp => spells_openBracket_of_readReference? ?_⟩
    exact selfDelimiting_readReference?.eq_none (List.cons_prefix_cons.mpr ⟨rfl, hp⟩) hnone
  · exact hplain (by decide) fun _ => rfl
  · exact hplain (by decide) fun _ => rfl

/-- Every token is read again where less of the text follows, and where nothing does. -/
theorem cut_of_read? (h : read? cs = some (t, rest)) : Cut t cs rest := by
  have hliteral {read : List Char → Option (Literal × List Char)}
      (hcut : ∀ value, read cs = some (value, rest) → Cut (.literal value) cs rest)
      (h : (read cs).map (fun r => (Token.literal r.1, r.2)) = some (t, rest)) :
      Cut t cs rest := by
    obtain ⟨⟨value, left⟩, hr, heq⟩ := Option.map_eq_some_iff.mp h
    obtain ⟨rfl, rfl⟩ := Prod.mk.inj heq
    exact hcut value hr
  rcases (Option.orElse_eq_some _ _ _).mp h with h | ⟨-, h⟩
  · exact hliteral (fun _ => cut_string) h
  · rcases (Option.orElse_eq_some _ _ _).mp h with h | ⟨hreference, h⟩
    · exact hliteral (fun _ => cut_reference) h
    · rcases (Option.orElse_eq_some _ _ _).mp h with h | ⟨-, h⟩
      · exact hliteral (fun _ => cut_number) h
      · rcases (Option.orElse_eq_some _ _ _).mp h with h | ⟨-, h⟩
        · exact cut_word h
        · exact cut_symbol h (Option.map_eq_none_iff.mp hreference)

end GraphExpr.Token
