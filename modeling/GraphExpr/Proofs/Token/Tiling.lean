import GraphExpr.Proofs.Token.Locality

/-! # Tokens tile their text

The tokens of a text stand in it one behind the other with nothing but separators between them.
Each is placed by the characters before it and is read again from its own characters alone. Where
a text is refused, its tokens are read up to the character at which none starts.
-/

namespace GraphExpr

/-- The place behind some text, counted from its start: the bytes, the line breaks and the
characters since the last of them. -/
def Position.behind (before : String) : Position :=
  ⟨before.utf8ByteSize, 1 + before.toList.count '\n',
    1 + (before.toList.reverse.takeWhile (· != '\n')).length⟩

namespace Position

@[simp] theorem offset_behind (before : String) :
    (behind before).offset = before.utf8ByteSize := rfl

theorem behind_empty : behind "" = {} := by decide

theorem next_behind (before : String) (c : Char) :
    (behind before).next c = behind (before ++ String.singleton c) := by
  have hbytes : (before ++ String.singleton c).utf8ByteSize = before.utf8ByteSize + c.utf8Size := by
    rw [String.utf8ByteSize_append, String.utf8ByteSize_singleton]
  have hchars : (before ++ String.singleton c).toList = before.toList ++ [c] := by simp
  rw [next, behind, behind, hbytes, hchars]
  by_cases hc : c = '\n'
  · simp [hc, List.count_append, Nat.add_assoc]
  · simp [hc, List.count_append, Nat.add_comm]

theorem advance_behind (before : String) (cs : List Char) :
    (behind before).advance cs = behind (before ++ String.ofList cs) := by
  induction cs generalizing before with
  | nil => simp [advance]
  | cons c cs ih =>
    have h := ih (before ++ String.singleton c)
    rw [advance, List.foldl_cons, next_behind, String.ofList_cons, ← String.append_assoc]
    exact h

end Position

def Span.Covers (span : Span) (offset : Nat) : Prop :=
  span.start.offset ≤ offset ∧ offset < span.stop

namespace Token

variable {before cs rest spelling : List Char} {tokens : List Located}

/-- Tokens with their places in the characters behind some others, where a rest follows. -/
inductive Tiling (rest : List Char) : List Char → List Char → List Located → Prop where
  | nil (before : List Char) : Tiling rest before [] []
  | blank {before cs : List Char} {c : Char} {tokens : List Located} :
      isSeparator c = true → Tiling rest (before ++ [c]) cs tokens →
      Tiling rest before (c :: cs) tokens
  | token {before spelling cs : List Char} {t : Token} {tokens : List Located} :
      (∀ rest', rest' <+: cs ++ rest → Spells t spelling rest') →
      Tiling rest (before ++ spelling) cs tokens →
      Tiling rest before (spelling ++ cs)
        (⟨t, ⟨.behind (String.ofList before), (String.ofList (before ++ spelling)).utf8ByteSize⟩⟩ ::
          tokens)

/-- A text starts with no token, and not with a separator either. -/
def Refused (rest : List Char) : Prop :=
  rest.head?.any (fun c => !isSeparator c) = true ∧ read? rest = none

theorem Spells.ne_nil {t : Token} (h : Spells t spelling rest) : spelling ≠ [] := by
  rintro rfl
  simp [Spells] at h

/-! ### Reading a text by its tiling -/

theorem readAllFor_blank {c : Char} (hc : isSeparator c = true) (steps : Nat)
    (before cs : List Char) :
    readAllFor (steps + 1) (.behind (String.ofList before)) (c :: cs) =
      readAllFor steps (.behind (String.ofList (before ++ [c]))) cs := by
  rw [readAllFor, if_pos hc, Position.next_behind, String.ofList_append,
    ← String.singleton_eq_ofList]

theorem readAllFor_token {t : Token} (h : Spells t spelling rest) (steps : Nat)
    (before : List Char) :
    readAllFor (steps + 1) (.behind (String.ofList before)) (spelling ++ rest) =
      (readAllFor steps (.behind (String.ofList (before ++ spelling))) rest).map
        (⟨t, ⟨.behind (String.ofList before),
          (String.ofList (before ++ spelling)).utf8ByteSize⟩⟩ :: ·) := by
  obtain ⟨hhead, hread⟩ := h
  obtain ⟨c, cs, rfl⟩ := List.exists_cons_of_ne_nil (Spells.ne_nil ⟨hhead, hread⟩)
  have hc : isSeparator c = false := by simpa using hhead
  have htake : (c :: cs ++ rest).take ((c :: cs ++ rest).length - rest.length) = c :: cs := by
    rw [List.length_append, Nat.add_sub_cancel, List.take_left]
  rw [List.cons_append] at hread htake ⊢
  rw [readAllFor, if_neg (by simp [hc]), hread]
  simp only [htake, Position.advance_behind, ← String.ofList_append]
  rfl

theorem readAllFor_refused (h : Refused rest) (steps : Nat) (position : Position) :
    readAllFor steps position rest = .error ⟨position, rest⟩ := by
  obtain ⟨hhead, hnone⟩ := h
  cases rest with
  | nil => simp at hhead
  | cons c cs =>
    cases steps with
    | zero => rfl
    | succ steps =>
      have hc : isSeparator c = false := by simpa using hhead
      rw [readAllFor, if_neg (by simp [hc]), hnone]

/-- Characters with a tiling are read as its tokens, whatever followed them in their text. -/
theorem Tiling.readAllFor (h : Tiling rest before cs tokens) (steps : Nat)
    (hs : cs.length ≤ steps) :
    readAllFor steps (.behind (String.ofList before)) cs = .ok tokens := by
  induction h generalizing steps with
  | nil => cases steps <;> rfl
  | blank hc _ ih =>
    rw [List.length_cons] at hs
    obtain ⟨steps, rfl⟩ : ∃ n, steps = n + 1 := ⟨steps - 1, by omega⟩
    rw [readAllFor_blank hc, ih steps (by omega)]
  | token hspells _ ih =>
    have hspell := hspells _ (List.prefix_append _ _)
    have hlength := List.length_pos_iff.mpr hspell.ne_nil
    rw [List.length_append] at hs
    obtain ⟨steps, rfl⟩ : ∃ n, steps = n + 1 := ⟨steps - 1, by omega⟩
    rw [readAllFor_token hspell, ih steps (by omega)]
    rfl

theorem exists_tiling (before cs : List Char) (steps : Nat) (hs : cs.length ≤ steps) :
    ∃ mid rest tokens, cs = mid ++ rest ∧ Tiling rest before mid tokens ∧
      (rest = [] ∧ readAllFor steps (.behind (String.ofList before)) cs = .ok tokens ∨
        Refused rest ∧ readAllFor steps (.behind (String.ofList before)) cs =
          .error ⟨.behind (String.ofList (before ++ mid)), rest⟩) := by
  induction steps generalizing before cs with
  | zero =>
    obtain rfl := List.length_eq_zero_iff.mp (Nat.le_zero.mp hs)
    exact ⟨[], [], [], rfl, .nil before, .inl ⟨rfl, rfl⟩⟩
  | succ steps ih =>
    cases cs with
    | nil => exact ⟨[], [], [], rfl, .nil before, .inl ⟨rfl, rfl⟩⟩
    | cons c cs =>
      cases hc : isSeparator c with
      | true =>
        obtain ⟨mid, rest, tokens, rfl, htiling, hresult⟩ :=
          ih (before ++ [c]) cs (by simpa using hs)
        refine ⟨c :: mid, rest, tokens, rfl, .blank hc htiling, ?_⟩
        simpa only [readAllFor_blank hc, List.append_assoc, List.singleton_append] using hresult
      | false =>
        cases hread : read? (c :: cs) with
        | none =>
          have hrefused : Refused (c :: cs) := ⟨by simp [hc], hread⟩
          refine ⟨[], c :: cs, [], rfl, .nil before, .inr ⟨hrefused, ?_⟩⟩
          rw [readAllFor_refused hrefused, List.append_nil]
        | some read =>
          obtain ⟨t, left⟩ := read
          obtain ⟨spelling, htext, hspells⟩ := cut_of_read? hread
          -- A token is no empty text, so fewer steps are enough for what is left.
          have hspell := hspells left List.prefix_rfl
          have hlength := List.length_pos_iff.mpr hspell.ne_nil
          rw [htext, List.length_append] at hs
          obtain ⟨mid, rest, tokens, rfl, htiling, hresult⟩ :=
            ih (before ++ spelling) left (by omega)
          refine ⟨spelling ++ mid, rest, _, by rw [htext, List.append_assoc],
            .token hspells htiling, ?_⟩
          rw [htext, readAllFor_token hspell]
          rcases hresult with ⟨hnil, hok⟩ | ⟨hrefused, herror⟩
          · exact .inl ⟨hnil, by rw [hok]; rfl⟩
          · exact .inr ⟨hrefused, by rw [herror, List.append_assoc]; rfl⟩

theorem Tiling.readAll (h : Tiling rest [] cs tokens) :
    readAll (String.ofList cs) = .ok tokens := by
  have hread := h.readAllFor cs.length (Nat.le_refl _)
  rwa [String.ofList_nil, Position.behind_empty, ← String.toList_ofList (l := cs)] at hread

theorem Spells.readAll {t : Token} (h : Spells t spelling []) :
    readAll (String.ofList spelling) =
      .ok [⟨t, ⟨{}, (String.ofList spelling).utf8ByteSize⟩⟩] := by
  have htiling : Tiling [] [] (spelling ++ []) _ := @Tiling.token [] [] _ [] _ []
    (fun rest' hp => by rwa [List.prefix_nil.mp hp]) (.nil _)
  have hread := htiling.readAll
  rwa [List.append_nil, List.nil_append, String.ofList_nil, Position.behind_empty] at hread

/-! ### Places -/

/-- A token stands behind some text with a text of its own, from which it is read alone. -/
structure Located.Stands (located : Located) (before lexeme : String) : Prop where
  nonempty : lexeme ≠ ""
  start : located.span.start = .behind before
  stop : located.span.stop = (before ++ lexeme).utf8ByteSize
  alone : readAll lexeme = .ok [⟨located.token, ⟨{}, lexeme.utf8ByteSize⟩⟩]

theorem Tiling.stands (h : Tiling rest before cs tokens) {located : Located}
    (ht : located ∈ tokens) :
    ∃ gap lexeme after, cs = gap ++ (lexeme ++ after) ∧
      located.Stands (String.ofList (before ++ gap)) (String.ofList lexeme) ∧
      read? (lexeme ++ (after ++ rest)) = some (located.token, after ++ rest) := by
  induction h with
  | nil => cases ht
  | @blank before cs c tokens hc _ ih =>
    obtain ⟨gap, lexeme, after, rfl, hstands, hread⟩ := ih ht
    exact ⟨c :: gap, lexeme, after, rfl, by simpa using hstands, hread⟩
  | @token before spelling cs t tokens hspells _ ih =>
    rcases List.mem_cons.mp ht with rfl | ht
    · have hspell := hspells _ List.prefix_rfl
      have halone := (hspells [] (List.nil_prefix)).readAll
      refine ⟨[], spelling, cs, rfl, ⟨?_, by simp, by simp, halone⟩, hspell.2⟩
      simpa [← String.toList_inj] using hspell.ne_nil
    · obtain ⟨gap, lexeme, after, rfl, hstands, hread⟩ := ih ht
      refine ⟨spelling ++ gap, lexeme, after, by rw [List.append_assoc], ?_, hread⟩
      simpa using hstands

theorem utf8ByteSize_ofList_append (xs ys : List Char) :
    (String.ofList (xs ++ ys)).utf8ByteSize =
      (String.ofList xs).utf8ByteSize + (String.ofList ys).utf8ByteSize := by
  rw [String.ofList_append, String.utf8ByteSize_append]

theorem Tiling.ordered (h : Tiling rest before cs tokens) :
    tokens.Pairwise fun s t => s.span.stop ≤ t.span.start.offset := by
  induction h with
  | nil => exact .nil
  | blank _ _ ih => exact ih
  | token _ htiling ih =>
    refine .cons (fun t ht => ?_) ih
    obtain ⟨gap, lexeme, after, -, hstands, -⟩ := htiling.stands ht
    rw [hstands.start, Position.offset_behind, utf8ByteSize_ofList_append _ gap]
    exact Nat.le_add_right _ _

theorem Tiling.isSeparator_of_gap (h : Tiling rest before cs tokens) {gap after : List Char}
    {c : Char} (hcs : cs = gap ++ c :: after)
    (hgap : ∀ t ∈ tokens, ¬ t.span.Covers (String.ofList (before ++ gap)).utf8ByteSize) :
    isSeparator c = true := by
  induction h generalizing gap with
  | nil => simp at hcs
  | @blank before cs d tokens hd _ ih =>
    cases gap with
    | nil => simp_all
    | cons e gap =>
      obtain ⟨rfl, rfl⟩ := List.cons.inj hcs
      exact ih rfl (by simpa using hgap)
  | @token before spelling cs t tokens hspells _ ih =>
    rcases List.append_eq_append_iff.mp hcs with ⟨gap, rfl, hrest⟩ | ⟨inner, rfl, hinner⟩
    · exact ih hrest fun t ht => by simpa using hgap t (List.mem_cons_of_mem _ ht)
    · cases inner with
      | nil =>
        exact @ih [] hinner.symm fun t ht => by
          simpa using hgap t (List.mem_cons_of_mem _ ht)
      | cons d inner =>
        -- the character is one of the token's own
        refine absurd ⟨?_, ?_⟩ (hgap _ (List.mem_cons_self ..))
        · rw [Position.offset_behind, utf8ByteSize_ofList_append _ gap]
          exact Nat.le_add_right _ _
        · rw [← List.append_assoc, utf8ByteSize_ofList_append _ (d :: inner), String.ofList_cons,
            String.utf8ByteSize_append, String.utf8ByteSize_singleton]
          exact Nat.lt_add_of_pos_right (Nat.add_pos_left d.utf8Size_pos _)

/-! ### The tokens of a text -/

/-- Tokens stand in a text, in order, with separators between them, where a rest follows. -/
structure Tiles (text rest : String) (tokens : List Located) : Prop where
  stands : ∀ t ∈ tokens, ∃ before lexeme after, text = before ++ lexeme ++ after ∧
    t.Stands before lexeme ∧
    read? (lexeme ++ after ++ rest).toList = some (t.token, (after ++ rest).toList)
  ordered : tokens.Pairwise fun s t => s.span.stop ≤ t.span.start.offset
  gaps : ∀ before c after, text = before ++ String.singleton c ++ after →
    (∀ t ∈ tokens, ¬ t.span.Covers before.utf8ByteSize) → c ∈ [' ', '\t', '\r', '\n']

theorem Tiling.tiles (h : Tiling rest [] cs tokens) :
    Tiles (String.ofList cs) (String.ofList rest) tokens where
  stands t ht := by
    obtain ⟨gap, lexeme, after, rfl, hstands, hread⟩ := h.stands ht
    refine ⟨String.ofList gap, String.ofList lexeme, String.ofList after, ?_, hstands, ?_⟩
    · simp only [String.ofList_append, String.append_assoc]
    · simpa using hread
  ordered := h.ordered
  gaps before c after htext hgap := by
    have hcs : cs = before.toList ++ c :: after.toList := by
      simpa using congrArg String.toList htext
    have hc := h.isSeparator_of_gap hcs (by simpa using hgap)
    simpa [isSeparator, or_assoc] using hc

theorem tiles_of_readAll {text : String} {tokens : List Located}
    (h : readAll text = .ok tokens) : Tiles text "" tokens := by
  obtain ⟨mid, rest, tokens', htext, htiling, hresult⟩ :=
    exists_tiling [] text.toList text.toList.length (Nat.le_refl _)
  rw [String.ofList_nil, Position.behind_empty, List.nil_append] at hresult
  rcases hresult with ⟨rfl, hok⟩ | ⟨-, herror⟩
  · obtain rfl : tokens' = tokens := Except.ok.inj (hok.symm.trans h)
    have htiles := htiling.tiles
    rwa [← List.append_nil mid, ← htext, String.ofList_toList] at htiles
  · cases herror.symm.trans h

theorem exists_of_readAll_error {text : String} {refusal : Refusal}
    (h : readAll text = .error refusal) :
    ∃ before c after tokens, text = before ++ (String.singleton c ++ after) ∧
      Tiles before (String.singleton c ++ after) tokens ∧ readAll before = .ok tokens ∧
      c ∉ [' ', '\t', '\r', '\n'] ∧ read? (c :: after.toList) = none ∧
      refusal.span = ⟨.behind before, before.utf8ByteSize + 1⟩ := by
  obtain ⟨mid, rest, tokens, htext, htiling, hresult⟩ :=
    exists_tiling [] text.toList text.toList.length (Nat.le_refl _)
  rw [String.ofList_nil, Position.behind_empty, List.nil_append] at hresult
  rcases hresult with ⟨-, hok⟩ | ⟨⟨hhead, hnone⟩, herror⟩
  · cases hok.symm.trans h
  · obtain rfl := Except.error.inj (herror.symm.trans h)
    cases rest with
    | nil => simp at hhead
    | cons c after =>
      refine ⟨String.ofList mid, c, String.ofList after, tokens, ?_, ?_, htiling.readAll, ?_, ?_,
        rfl⟩
      · rw [← String.toList_inj, htext]
        simp
      · rw [← String.ofList_cons]
        exact htiling.tiles
      · simpa [isSeparator, and_assoc] using hhead
      · rwa [String.toList_ofList]

/-- The tokens of a text stand in it in order, each read again from its own text, with separators
between them. Where a text is refused they end at the first character that is no separator and at
which no token starts. -/
theorem readAll_tiles (text : String) :
    match readAll text with
    | .ok tokens => Tiles text "" tokens
    | .error refusal => ∃ before c after tokens, text = before ++ (String.singleton c ++ after) ∧
        Tiles before (String.singleton c ++ after) tokens ∧ readAll before = .ok tokens ∧
        c ∉ [' ', '\t', '\r', '\n'] ∧ read? (c :: after.toList) = none ∧
        refusal.span = ⟨.behind before, before.utf8ByteSize + 1⟩ := by
  cases h : readAll text with
  | ok tokens => exact tiles_of_readAll h
  | error refusal => exact exists_of_readAll_error h

end Token

end GraphExpr
