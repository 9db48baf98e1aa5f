import Mathlib.Algebra.Order.Ring.Int
import GraphExpr.Proofs.Eval.Answers

/-! # Windows of sequences

A slice of a sequence is exactly the window that its indices describe. The sums and the difference
that are formed on the way fit into machine words, whatever the indices are, so that none of them
wraps around.
-/

namespace GraphExpr

/-! ### Windows -/

structure Window where
  /-- The first place. -/
  lo : ℕ
  /-- The place behind the last one. -/
  hi : ℕ
  ordered : lo ≤ hi

namespace Window

/-- The place of an index in a sequence of some length: a negative one counts from the end, and
both ends cut it off. -/
def place (length : ℕ) (index : ℤ) : ℕ :=
  if index < 0 then (max 0 (length + index)).toNat else (min index length).toNat

/-- The window that indices describe: from the start, which is the first place if it is not given,
to the end, which is behind the last place if it is not given and never before the start, and cut
off behind the size. -/
def ofIndices (length : ℕ) (start stop size : Option ℤ) : Window :=
  let lo := start.elim 0 (place length)
  let hi := max (stop.elim length (place length)) lo
  ⟨lo, size.elim hi fun n => min hi (lo + n.toNat), by cases size <;> simp <;> omega⟩

def items {α : Type} (window : Window) (xs : List α) : List α :=
  (xs.drop window.lo).take (window.hi - window.lo)

def page (xs : List Concrete) (start stop size : Option ℤ) (source : Option Source) :
    Page Concrete :=
  let items := (ofIndices xs.length start stop size).items xs
  ⟨items, (ofIndices xs.length start stop size).lo, size.elim items.length Int.toNat, xs.length,
    source⟩

variable {length : ℕ} {start stop size : Option ℤ}

theorem place_le (length : ℕ) (index : ℤ) : place length index ≤ length := by
  unfold place
  split <;> omega

theorem elim_place_le {index : Option ℤ} {default : ℕ} (h : default ≤ length) :
    index.elim default (place length) ≤ length := by
  cases index with
  | none => exact h
  | some index => exact place_le length index

theorem lo_le : (ofIndices length start stop size).lo ≤ length :=
  elim_place_le (Nat.zero_le _)

theorem hi_le : (ofIndices length start stop size).hi ≤ length := by
  have hend : max (stop.elim length (place length)) (start.elim 0 (place length)) ≤ length :=
    max_le (elim_place_le le_rfl) (elim_place_le (Nat.zero_le _))
  cases size with
  | none => exact hend
  | some n => exact (min_le_left _ _).trans hend

theorem length_items {α : Type} (xs : List α) :
    ((ofIndices xs.length start stop size).items xs).length =
      (ofIndices xs.length start stop size).hi - (ofIndices xs.length start stop size).lo := by
  have hhi : (ofIndices xs.length start stop size).hi ≤ xs.length := hi_le
  rw [items, List.length_take, List.length_drop]
  omega

theorem page_within (xs : List Concrete) (source : Option Source) :
    (page xs start stop size source).startedAt + (page xs start stop size source).items.length ≤
      xs.length := by
  have hhi : (ofIndices xs.length start stop size).hi ≤ xs.length := hi_le
  have hordered := (ofIndices xs.length start stop size).ordered
  show (ofIndices xs.length start stop size).lo +
    ((ofIndices xs.length start stop size).items xs).length ≤ _
  rw [length_items]
  omega

theorem page_fits (xs : List Concrete) (source : Option Source) :
    (page xs start stop size source).items.length ≤ (page xs start stop size source).pageSize := by
  cases size with
  | none => exact le_rfl
  | some n =>
    show ((ofIndices xs.length start stop (some n)).items xs).length ≤ n.toNat
    rw [length_items, ofIndices]
    simp only [Option.elim_some]
    omega

end Window

/-! ### Words -/

theorem Word.wrap_of_signed {n : ℤ} (h : Signed n) : wrap n = n := by
  obtain ⟨hleast, hgreatest⟩ := h
  exact Int.bmod_eq_of_le (by omega) (by omega)

section

variable {length : ℕ} (hlength : length < 2 ^ 63)

include hlength

/-- The sum of a length and a negative index is a signed word. -/
theorem Word.signed_add {index : ℤ} (hindex : Signed index) (hneg : index < 0) :
    Signed (length + index) := by
  obtain ⟨hleast, -⟩ := hindex
  constructor <;> omega

theorem resolveIndex_eq {index : ℤ} (hindex : Word.Signed index) :
    resolveIndex index length = Window.place length index := by
  have hlength' : Word.Signed length := ⟨by omega, by omega⟩
  unfold resolveIndex Window.place
  rw [Word.wrap_of_signed hlength']
  split
  next hneg =>
    rw [Word.wrap_of_signed (Word.signed_add hlength hindex hneg)]
    omega
  next => omega

theorem elim_resolveIndex {index : Option ℤ} (hindex : ∀ n ∈ index, Word.Signed n) (default : ℕ) :
    index.elim default (resolveIndex · length) = index.elim default (Window.place length) := by
  cases index with
  | none => simp only [Option.elim_none]
  | some n => exact resolveIndex_eq hlength (hindex n rfl)

/-- The end of a window whose size is a word is a word, so that it need not be cut off there. -/
theorem Word.unsigned_end {lo : ℕ} (hlo : lo ≤ length) {size : ℤ} (hsize : Signed size)
    (hnonneg : 0 ≤ size) : Unsigned (lo + size) := by
  obtain ⟨-, hgreatest⟩ := hsize
  constructor <;> omega

end

/-! ### The function -/

namespace Evaluator

variable {environment : Environment}

def Given (S : Stage environment) (levels : ℕ) (call : Call) (context : Context) (key : String)
    (index : Option ℤ) : Prop :=
  match call.find? key with
  | none => index = none
  | some e => ∃ n, index = some n ∧
    S.Returns ((ofDepth levels).evaluateInt context e) fun value => value = n

/-- A call of slice() in a state: its argument is a value that has a count and the given items,
which can be had from then on, and the indices that are given are integers. -/
structure Slices (S : Stage environment) (levels : ℕ) (call : Call) (context : Context)
    (s : EvalState) (value : Value) (xs : List Concrete) (start stop size : Option ℤ) : Prop where
  argument : ∃ e s', call.positional = some e ∧ S.Orderly s' ∧
    (ofDepth levels).evaluateIterable context e environment s = some (.ok value, s')
  hasCount : value.hasCount = true
  obeys : value.Obeys S xs
  counted : S.Returns ((ofDepth levels).count value) fun _ => True
  cut : ∀ offset count, S.Returns ((ofDepth levels).slice value offset count) fun _ => True
  start : Given S levels call context "start" start
  stop : Given S levels call context "end" stop
  size : Given S levels call context "size" size

/-- The indices are signed words, and the size is not negative. -/
structure Allowed (start stop size : Option ℤ) : Prop where
  start : ∀ n ∈ start, Word.Signed n
  stop : ∀ n ∈ stop, Word.Signed n
  size : ∀ n ∈ size, Word.Signed n ∧ 0 ≤ n

variable {S : Stage environment} {levels : ℕ} {call : Call} {context : Context} {s : EvalState}
  {value : Value} {xs : List Concrete} {start stop size : Option ℤ}

section

variable {key : String} {index : Option ℤ} (h : Given S levels call context key index)

include h

theorem Given.returns_indexOf (hindex : ∀ n ∈ index, Word.Signed n) :
    S.Returns ((ofDepth levels).indexOf call key context) fun found => found = index := by
  unfold Given at h
  unfold indexOf
  cases hfind : call.find? key with
  | none =>
    rw [hfind] at h
    exact Stage.returns_pure h.symm
  | some e =>
    rw [hfind] at h
    obtain ⟨n, rfl, he⟩ := h
    refine he.bind fun m hm => ?_
    rw [hm, if_pos (hindex n rfl)]
    exact Stage.returns_pure rfl

theorem Given.refuses_indexOf (hindex : ¬ ∀ n ∈ index, Word.Signed n) :
    S.Refuses ((ofDepth levels).indexOf call key context) := by
  unfold Given at h
  unfold indexOf
  cases hfind : call.find? key with
  | none =>
    rw [hfind] at h
    subst h
    exact absurd (by simp) hindex
  | some e =>
    rw [hfind] at h
    obtain ⟨n, rfl, he⟩ := h
    refine he.bind fun m hm => ?_
    rw [hm, if_neg fun hn => hindex fun k hk => Option.mem_some.mp hk ▸ hn]
    exact Stage.refuses_fail _

end

/-- How a slice ends: with the page of the window, or with an error if an index is not allowed. -/
def SliceEnds (value : Value) (xs : List Concrete) (start stop size : Option ℤ)
    (o : Except Error Value) : Prop :=
  (Allowed start stop size →
    o = .ok (.concrete (.page (Window.page xs start stop size value.source?)))) ∧
  (¬ Allowed start stop size → ∃ e, o = .error (.expression e))

theorem ends_of_refuses {x : EvalM Value} (h : S.Refuses x)
    (hnot : ¬ Allowed start stop size) : S.Ends x (SliceEnds value xs start stop size) :=
  h.weaken fun _ he => ⟨fun hallowed => absurd hallowed hnot, fun _ => he⟩

theorem Slices.ends (h : Slices S levels call context s value xs start stop size)
    (hlength : xs.length < 2 ^ 63) : ∃ o s',
      (ofDepth levels).slicePage call context environment s = some (o, s') ∧ S.Orderly s' ∧
        SliceEnds value xs start stop size o := by
  obtain ⟨e, s₁, hpositional, hs₁, hvalue⟩ := h.argument
  have hcall : call.argument environment s = some (.ok e, s) := by
    rw [Call.argument, hpositional]
    rfl
  have hcount := (h.obeys.count levels).returns h.counted
  have hcut (offset count : ℕ) := (h.obeys.slice levels offset count).returns (h.cut offset count)
  unfold slicePage
  rw [EvalM.bind_of_ok hcall, EvalM.bind_of_ok hvalue, h.hasCount]
  refine hcount.bind (fun total htotal => ?_) s₁ hs₁
  subst htotal
  -- The indices are read one after the other, so that the first that is not allowed is the error.
  by_cases hstart : ∀ n ∈ start, Word.Signed n
  case neg =>
    exact ends_of_refuses ((h.start.refuses_indexOf hstart).bind _) fun hall => hstart hall.start
  refine (h.start.returns_indexOf hstart).bind fun _ hi => ?_
  cases hi
  by_cases hstop : ∀ n ∈ stop, Word.Signed n
  case neg =>
    exact ends_of_refuses ((h.stop.refuses_indexOf hstop).bind _) fun hall => hstop hall.stop
  refine (h.stop.returns_indexOf hstop).bind fun _ hj => ?_
  cases hj
  by_cases hsize : ∀ n ∈ size, Word.Signed n
  case neg =>
    exact ends_of_refuses ((h.size.refuses_indexOf hsize).bind _)
      fun hall => hsize fun n hn => (hall.size n hn).1
  refine (h.size.returns_indexOf hsize).bind fun _ hn => ?_
  cases hn
  split
  next hneg =>
    obtain ⟨n, hn, hneg⟩ := (Option.any_eq_true _ _).mp hneg
    exact ends_of_refuses (Stage.refuses_fail _)
      fun hall => absurd (of_decide_eq_true hneg) (hall.size n hn).2.not_gt
  next hnonneg =>
    have hallowed : Allowed start stop size := by
      refine ⟨hstart, hstop, fun n hn => ⟨hsize n hn, le_of_not_gt fun hneg => hnonneg ?_⟩⟩
      exact (Option.any_eq_true _ _).mpr ⟨n, hn, decide_eq_true hneg⟩
    dsimp only
    rw [elim_resolveIndex hlength hstart, elim_resolveIndex hlength hstop]
    refine (hcut (Window.ofIndices xs.length start stop size).lo _).bind fun items hitems => ?_
    subst hitems
    exact Stage.ends_pure ⟨fun _ => rfl, fun hnot => absurd hallowed hnot⟩

/-- A slice is the page of the window that its indices describe, which is within the sequence and no
longer than the size; it fails if an index is no word or the size is negative. Whatever is added or
subtracted on the way fits into words. -/
theorem slicePage_window (h : Slices S levels call context s value xs start stop size)
    (hlength : xs.length < 2 ^ 63) :
    let window := Window.ofIndices xs.length start stop size
    let page := Window.page xs start stop size value.source?
    (Allowed start stop size → ∃ s',
      (ofDepth levels).slicePage call context environment s =
          some (.ok (.concrete (.page page)), s')) ∧
      (¬ Allowed start stop size → ∃ e s',
        (ofDepth levels).slicePage call context environment s =
          some (.error (.expression e), s')) ∧
      page.startedAt + page.items.length ≤ xs.length ∧ page.items.length ≤ page.pageSize ∧
      Word.Signed xs.length ∧
      (∀ index, Word.Signed index → index < 0 → Word.Signed (xs.length + index)) ∧
      (∀ n, Word.Signed n → 0 ≤ n → Word.Unsigned (window.lo + n)) ∧ window.lo ≤ window.hi := by
  intro window page
  obtain ⟨o, s', hrun, -, hpage, herror⟩ := h.ends hlength
  refine ⟨fun hallowed => ⟨s', ?_⟩, fun hnot => ?_, Window.page_within xs _,
    Window.page_fits xs _, ⟨by omega, by omega⟩, fun _ => Word.signed_add hlength,
    fun _ => Word.unsigned_end hlength Window.lo_le, window.ordered⟩
  · rw [hrun, hpage hallowed]
  · obtain ⟨e, rfl⟩ := herror hnot
    exact ⟨e, s', hrun⟩

theorem returns_evaluateInt {keeps : ℕ → Option Generator}
    (hdepth : 0 < environment.config.evaluationDepth) (hbindings : context.bindings ≠ []) (n : ℤ) :
    (Stage.idle environment keeps).Returns
      ((ofDepth (levels + 1)).evaluateInt context (.literal (.integer n))) fun m => m = n := by
  have hvalue : (Stage.idle environment keeps).Returns
      ((ofDepth (levels + 1)).evaluate context (.literal (.integer n)))
      fun v => v = .concrete (.integer n) :=
    Stage.returns_evaluate hdepth hbindings (fun _ => rfl) rfl
  have hsound : (Stage.idle environment keeps).Returns
      ((ofDepth (levels + 1)).evaluateSound context (.literal (.integer n)))
      fun v => v = .concrete (.integer n) :=
    hvalue.bind fun v hv => by subst hv; exact Stage.returns_pure rfl
  have hinteger : (Stage.idle environment keeps).Returns
      ((ofDepth (levels + 1)).evaluateAs context (.literal (.integer n)) [.integer])
      fun v => v = .concrete (.integer n) :=
    hsound.bind fun v hv => by subst hv; exact Stage.returns_pure rfl
  exact hinteger.bind fun v hv => by subst hv; exact Stage.returns_pure rfl

/-- The call slice(x, start=-2, size=1). -/
def sliceCall : Call :=
  ⟨.builtin .slice, some (.var "x"),
    [("start", .literal (.integer (-2))), ("size", .literal (.integer 1))]⟩

/-- Of three items the one before the last. -/
theorem slicePage_window_second :
    let environment : Environment := { graph := { site := ⟨"s"⟩ } }
    let xs : List Concrete := [.boolean true, .null, .boolean false]
    let context : Context :=
      { site := ⟨"s"⟩, pageSize := 10, bindings := [("x", .concrete (.list xs))], cache := 0 }
    ∃ s', (ofDepth 3).slicePage sliceCall context environment {} =
      some (.ok (.concrete (.page ⟨[.null], 1, 1, 3, none⟩)), s') := by
  intro environment xs context
  have hbindings : context.bindings ≠ [] := by simp [context]
  have hslices : Slices (Stage.idle environment fun _ => none) 3 sliceCall context {}
      (.concrete (.list xs)) xs (some (-2)) none (some 1) := {
    argument := ⟨.var "x", _, rfl,
      Stage.orderly_of_empty ⟨rfl, rfl, rfl⟩ fun _ _ h => absurd rfl h, rfl⟩
    hasCount := rfl
    obeys := Value.obeys_concrete _
    counted := Stage.returns_pure trivial
    cut := fun _ _ => Stage.returns_pure trivial
    start := ⟨-2, rfl, returns_evaluateInt (by decide) hbindings (-2)⟩
    stop := rfl
    size := ⟨1, rfl, returns_evaluateInt (by decide) hbindings 1⟩ }
  have hallowed : Allowed (some (-2)) none (some 1) := by
    refine ⟨?_, nofun, ?_⟩ <;> rintro _ ⟨⟩ <;> decide
  exact (slicePage_window hslices (by decide)).1 hallowed

end Evaluator

end GraphExpr
