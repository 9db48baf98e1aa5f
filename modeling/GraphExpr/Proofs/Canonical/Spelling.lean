import GraphExpr.Proofs.Canonical.Numeral
import GraphExpr.Token.Lexer

/-! # Spelled tokens

The tokens of a text are those of its spellings in turn: each token is read from its own spelling,
whatever follows, as long as what follows cannot continue it.
-/

namespace GraphExpr.Token

inductive Lexes : List Char → List Token → Prop where
  | nil : Lexes [] []
  | blank {c : Char} {cs : List Char} {ts : List Token} :
      isSeparator c = true → Lexes cs ts → Lexes (c :: cs) ts
  | token {c : Char} {cs rest : List Char} {t : Token} {ts : List Token} :
      isSeparator c = false → read? (c :: cs ++ rest) = some (t, rest) → Lexes rest ts →
      Lexes (c :: cs ++ rest) (t :: ts)

theorem Lexes.readAllFor {cs : List Char} {ts : List Token} (h : Lexes cs ts) (steps : Nat)
    (position : Position) (hs : cs.length ≤ steps) :
    ∃ located, readAllFor steps position cs = .ok located ∧ located.map Located.token = ts := by
  induction h generalizing steps position with
  | nil => exact ⟨[], by cases steps <;> rfl, rfl⟩
  | blank hc _ ih =>
    obtain ⟨steps, rfl⟩ : ∃ n, steps = n + 1 :=
      ⟨steps - 1, by simp only [List.length_cons] at hs; omega⟩
    rw [Token.readAllFor, if_pos hc]
    exact ih _ _ (by simpa using hs)
  | @token c cs rest t ts hc hr _ ih =>
    obtain ⟨steps, rfl⟩ : ∃ n, steps = n + 1 :=
      ⟨steps - 1, by simp only [List.length_append, List.length_cons] at hs; omega⟩
    rw [List.cons_append] at hr hs ⊢
    obtain ⟨located, hl, ht⟩ := ih steps
      (position.advance ((c :: (cs ++ rest)).take ((c :: (cs ++ rest)).length - rest.length)))
      (by simp only [List.length_cons, List.length_append] at hs; omega)
    rw [Token.readAllFor, if_neg (by simp [hc])]
    simp only [hr, hl, Except.map]
    exact ⟨_, rfl, by simp [ht]⟩

theorem Lexes.readAll {s : String} {ts : List Token} (h : Lexes s.toList ts) :
    ∃ located, readAll s = .ok located ∧ located.map Located.token = ts :=
  h.readAllFor _ _ (Nat.le_refl _)

/-- The spelling of a token, as long as one of the given texts follows. -/
def Spells (t : Token) (spelling rest : List Char) : Prop :=
  spelling.head?.any (fun c => !isSeparator c) = true ∧
    read? (spelling ++ rest) = some (t, rest)

theorem Spells.lexes {t : Token} {spelling rest : List Char} {ts : List Token}
    (h : Spells t spelling rest) (hrest : Lexes rest ts) : Lexes (spelling ++ rest) (t :: ts) := by
  obtain ⟨hc, hr⟩ := h
  cases spelling with
  | nil => simp at hc
  | cons c cs => exact .token (by simpa using hc) hr hrest

/-! ### Characters -/

theorem isAlphabetic_of_ascii {c : Char} (h : c.toNat < 128) :
    Text.isAlphabetic c = c.isAlpha := by
  simp [Text.isAlphabetic, Text.inClass, h]

theorem toNat_of_isAlpha {c : Char} (h : c.isAlpha = true) :
    (65 ≤ c.toNat ∧ c.toNat ≤ 90) ∨ (97 ≤ c.toNat ∧ c.toNat ≤ 122) := by
  rcases (Bool.or_eq_true _ _).mp h with h | h
  · exact .inl (of_decide_eq_true h)
  · obtain ⟨h₁, h₂⟩ := (Bool.and_eq_true _ _).mp h
    exact .inr ⟨of_decide_eq_true h₁, of_decide_eq_true h₂⟩

theorem isDigit_eq_false_of_isWordStart {c : Char} (h : isWordStart c = true) :
    c.isDigit = false := by
  refine Bool.eq_false_iff.mpr fun hd => ?_
  have hd : 48 ≤ c.toNat ∧ c.toNat ≤ 57 := Char.isDigit_iff_toNat.mp hd
  simp only [isWordStart, Bool.or_eq_true, beq_iff_eq] at h
  rcases h with h | rfl
  · rw [isAlphabetic_of_ascii (by omega)] at h
    have := toNat_of_isAlpha h
    omega
  · simp at hd

theorem ne_of_class {p : Char → Bool} {c d : Char} (hc : p c = true) (hd : p d = false) :
    c ≠ d :=
  ne_of_apply_ne p (by simp [hc, hd])

theorem isSeparator_eq_false {c : Char} (h₁ : c ≠ ' ') (h₂ : c ≠ '\t') (h₃ : c ≠ '\r')
    (h₄ : c ≠ '\n') : isSeparator c = false := by
  simp [isSeparator, h₁, h₂, h₃, h₄]

/-- What comes first in a text satisfies a condition, if there is anything. -/
def Heads (p : Char → Bool) (cs : List Char) : Prop :=
  ∀ c ∈ cs.head?, p c = true

theorem heads_nil (p : Char → Bool) : Heads p [] := by
  simp [Heads]

theorem heads_cons {p : Char → Bool} {c : Char} {cs : List Char} :
    Heads p (c :: cs) ↔ p c = true := by
  simp [Heads]

theorem takeWhile_append_heads {p q : Char → Bool} {cs rest : List Char}
    (hcs : ∀ c ∈ cs, p c = true) (hrest : Heads q rest) (hpq : ∀ c, q c = true → p c = false) :
    (cs ++ rest).takeWhile p = cs ∧ (cs ++ rest).dropWhile p = rest := by
  rw [List.takeWhile_append_of_pos hcs, List.dropWhile_append_of_pos hcs]
  cases rest with
  | nil => simp
  | cons c rest => simp [hpq c (heads_cons.mp hrest)]

/-! ### Symbols -/

/-- A character that starts no string, reference, number or word. -/
def isPlainSymbol (c : Char) : Bool :=
  c == '.' || c == '=' || c == '(' || c == ')' || c == ']' || c == ','

theorem readWord?_eq_none {c : Char} {cs : List Char} (h : isWordStart c = false) :
    readWord? (c :: cs) = none := by
  simp [readWord?, h]

theorem readNumber?_eq_none {c : Char} {cs : List Char} (hm : c ≠ '-') (hd : c.isDigit = false) :
    readNumber? (c :: cs) = none := by
  have hs : readSign (c :: cs) = (false, c :: cs) := by simp [readSign, hm]
  simp [readNumber?, hs, hd]

theorem readReference?_eq_none {c : Char} {cs : List Char} (h : c ≠ '[') :
    readReference? (c :: cs) = none := by
  have hs : stripStart? "[[/".toList (c :: cs) = none := if_neg fun he => h he.symm
  simp only [readReference?, hs]
  rfl

theorem readString?_eq_none {c : Char} {cs : List Char} (h : c ≠ '"') :
    readString? (c :: cs) = none := by
  simp [readString?, h]

theorem read?_eq_readSymbol? {cs : List Char} (h₁ : readString? cs = none)
    (h₂ : readReference? cs = none) (h₃ : readNumber? cs = none) (h₄ : readWord? cs = none) :
    read? cs = readSymbol? cs := by
  simp [read?, h₁, h₂, h₃, h₄]

theorem spells_symbol {c : Char} {t : Token} (rest : List Char) (h : isPlainSymbol c = true)
    (ht : readSymbol? (c :: rest) = some (t, rest)) : Spells t [c] rest := by
  simp only [isPlainSymbol, Bool.or_eq_true, beq_iff_eq] at h
  rcases h with ((((rfl | rfl) | rfl) | rfl) | rfl) | rfl <;>
    exact ⟨rfl, (read?_eq_readSymbol? (readString?_eq_none (by decide))
      (readReference?_eq_none (by decide)) (readNumber?_eq_none (by decide) (by decide))
      (readWord?_eq_none (by decide))).trans ht⟩

theorem spells_arrow (rest : List Char) : Spells .arrow ['-', '>'] rest := by
  have hn : readNumber? ('-' :: '>' :: rest) = none := by
    simp [readNumber?, readSign]
  exact ⟨rfl, read?_eq_readSymbol? (readString?_eq_none (by decide))
    (readReference?_eq_none (by decide)) hn (readWord?_eq_none (by decide))⟩

theorem spells_openBracket_of_readReference? {rest : List Char}
    (h : readReference? ('[' :: rest) = none) : Spells .openBracket ['['] rest :=
  ⟨rfl, read?_eq_readSymbol? (readString?_eq_none (by decide)) h
    (readNumber?_eq_none (by decide) (by decide)) (readWord?_eq_none (by decide))⟩

/-- An opening bracket is read unless a reference starts with it. -/
theorem spells_openBracket {rest : List Char} (h : stripStart? "[/".toList rest = none) :
    Spells .openBracket ['['] rest := by
  refine spells_openBracket_of_readReference? ?_
  have hs : stripStart? "[[/".toList ('[' :: rest) = stripStart? "[/".toList rest := if_pos rfl
  simp only [readReference?, hs, h]
  rfl

/-! ### Words -/

def IsName (s : String) : Prop :=
  ∃ c cs, s.toList = c :: cs ∧ isWordStart c = true ∧ (∀ d ∈ cs, isWordChar d = true) ∧
    isReserved s = false

-- `List.all`, because `∀ d ∈ cs` may be decided by trying every character there is.
instance : DecidablePred IsName := fun s =>
  match h : s.toList with
  | [] => isFalse fun ⟨_, _, hs, _⟩ => by cases h.symm.trans hs
  | c :: cs =>
    decidable_of_iff (isWordStart c = true ∧ cs.all isWordChar = true ∧ isReserved s = false) <| by
      rw [List.all_eq_true]
      constructor
      · exact fun hname => ⟨c, cs, h, hname⟩
      · rintro ⟨_, _, hs, hname⟩
        cases h.symm.trans hs
        exact hname

theorem ofWord_of_isReserved_eq_false {s : String} (h : isReserved s = false) :
    ofWord s = .identifier s := by
  simp only [isReserved, Bool.or_eq_false_iff, beq_eq_false_iff_ne] at h
  simp [ofWord, h]

theorem spells_word (c : Char) (cs : List Char) {rest : List Char} (hc : isWordStart c = true)
    (hcs : ∀ d ∈ cs, isWordChar d = true) (hrest : Heads (fun d => !isWordChar d) rest) :
    Spells (ofWord (String.ofList (c :: cs))) (c :: cs) rest := by
  obtain ⟨htake, hdrop⟩ := takeWhile_append_heads hcs hrest (by simp)
  have hsep : isSeparator c = false := isSeparator_eq_false (ne_of_class hc (by decide))
    (ne_of_class hc (by decide)) (ne_of_class hc (by decide)) (ne_of_class hc (by decide))
  have hstring : readString? (c :: (cs ++ rest)) = none :=
    readString?_eq_none (ne_of_class hc (by decide))
  have hreference : readReference? (c :: (cs ++ rest)) = none :=
    readReference?_eq_none (ne_of_class hc (by decide))
  have hnumber : readNumber? (c :: (cs ++ rest)) = none :=
    readNumber?_eq_none (ne_of_class hc (by decide)) (isDigit_eq_false_of_isWordStart hc)
  refine ⟨by simp [hsep], ?_⟩
  simp [read?, hstring, hreference, hnumber, readWord?, hc, htake, hdrop]

theorem IsName.spells {s : String} (h : IsName s) {rest : List Char}
    (hrest : Heads (fun d => !isWordChar d) rest) : Spells (.identifier s) s.toList rest := by
  obtain ⟨c, cs, hs, hc, hcs, hr⟩ := h
  have hw := spells_word c cs hc hcs hrest
  rwa [← hs, String.ofList_toList, ofWord_of_isReserved_eq_false hr] at hw

/-! ### Strings -/

theorem readQuoted?_escaped (cs rest : List Char) :
    readQuoted? (cs.flatMap Literal.escaped ++ '"' :: rest) = some (cs, rest) := by
  induction cs with
  | nil => rfl
  | cons c cs ih =>
    simp only [List.flatMap_cons, List.append_assoc, Literal.escaped]
    split
    all_goals try simp [readQuoted?, unescape?, ih]
    next h₁ h₂ _ _ _ =>
      rw [readQuoted?, ih]
      · rfl
      · exact h₁
      · exact fun _ _ h _ => h₂ h
      · exact fun h _ => h₂ h

theorem spells_string (s : String) (rest : List Char) :
    Spells (.literal (.string s)) (Literal.stringText s).toList rest := by
  have hr : readString? ((Literal.stringText s).toList ++ rest) = some (.string s, rest) := by
    simp [Literal.stringText, readString?, readQuoted?_escaped]
  refine ⟨by simp [Literal.stringText, isSeparator], ?_⟩
  simp [read?, hr]

/-! ### References -/

def IsReferenceId (s : String) : Prop :=
  s ≠ "" ∧ ∀ c ∈ s.toList, isIdChar c = true

theorem readReferenceEnd?_append {s : String} (h : IsReferenceId s) (rest : List Char) :
    readReferenceEnd? (s.toList ++ ']' :: ']' :: rest) = some (s, rest) := by
  have hb : isIdChar ']' = false := by decide
  have hne : s.toList ≠ [] := fun he => h.1 (String.toList_inj.mp he)
  rw [readReferenceEnd?, List.takeWhile_append_of_pos h.2, List.dropWhile_append_of_pos h.2]
  obtain ⟨c, cs, hcs⟩ := List.exists_cons_of_ne_nil hne
  simp only [List.takeWhile_cons, List.dropWhile_cons, hb, Bool.false_eq_true, if_false,
    List.append_nil]
  rw [← String.ofList_toList (s := s), hcs]
  simp

theorem spells_reference {value : Literal} {text : String} {rest : List Char}
    (hb : text.toList.head? = some '[')
    (h : readReference? (text.toList ++ rest) = some (value, rest)) :
    Spells (.literal value) text.toList rest := by
  obtain ⟨cs, hcs⟩ : ∃ cs, text.toList = '[' :: cs := by
    cases hl : text.toList <;> simp_all
  rw [hcs] at h ⊢
  rw [List.cons_append] at h
  have hs : readString? ('[' :: (cs ++ rest)) = none := readString?_eq_none (by decide)
  exact ⟨by simp [isSeparator], by simp [read?, hs, h]⟩

end GraphExpr.Token
