import GraphExpr.Proofs.Eval.Stage
import GraphExpr.Proofs.Value.Measure

/-! # What conversions give

A conversion into a type gives values of that type, which convert into themselves, so what asks for
a truth value, an integer, a text or a set of entries never comes upon anything else. An integer is
found again behind its magnitude. Annotations do not matter, but for those of an error: it arises
again, while with annotations it is true.
-/

namespace GraphExpr

/-! ### Numbers -/

namespace Decimal

theorem isIntegral_of_ofInt? {n : ℤ} {d : Decimal} (h : ofInt? n = some d) :
    d.isIntegral = true := by
  unfold ofInt? ofParts? at h
  split at h
  · cases h
    simp [isIntegral, power]
  · cases h

theorem integerPart_of_ofInt? {n : ℤ} {d : Decimal} (h : ofInt? n = some d) :
    d.integerPart = n := by
  unfold ofInt? ofParts? at h
  split at h
  · cases h
    simp [integerPart, power]
  · cases h

end Decimal

/-! ### Postconditions -/

namespace EvalM

variable {α β : Type} {x : EvalM α} {p : α → Prop} {q : β → Prop}

/-- Whatever results a computation has, in any environment and state, they satisfy a condition. -/
def Gives (x : EvalM α) (p : α → Prop) : Prop :=
  ∀ environment s a s', x environment s = some (.ok a, s') → p a

theorem gives_true (x : EvalM α) : x.Gives fun _ => True :=
  fun _ _ _ _ _ => trivial

theorem gives_pure {a : α} (h : p a) : (pure a : EvalM α).Gives p := by
  intro environment s b s' hrun
  cases hrun
  exact h

theorem gives_throw (e : Error) : (throw e : EvalM α).Gives p :=
  fun _ _ _ _ hrun => nomatch hrun

theorem Gives.bind {f : α → EvalM β} (hx : x.Gives p) (hf : ∀ a, p a → (f a).Gives q) :
    (x >>= f).Gives q := by
  intro environment s b s'' hrun
  obtain ⟨a, s', ha, hb⟩ := bind_eq_ok hrun
  exact hf a (hx environment s a s' ha) environment s' b s'' hb

theorem gives_bind {f : α → EvalM β} (hf : ∀ a, (f a).Gives q) : (x >>= f).Gives q :=
  (gives_true x).bind fun a _ => hf a

theorem Gives.weaken {p' : α → Prop} (hx : x.Gives p) (h : ∀ a, p a → p' a) : x.Gives p' :=
  fun environment s a s' hrun => h a (hx environment s a s' hrun)

theorem Gives.bind_congr {f g : α → EvalM β} (hx : x.Gives p) (hfg : ∀ a, p a → f a = g a) :
    x >>= f = x >>= g := by
  funext environment s
  cases hrun : x environment s with
  | none => rw [bind_of_none hrun, bind_of_none hrun]
  | some result =>
    obtain ⟨e | a, s'⟩ := result
    · rw [bind_of_error hrun, bind_of_error hrun]
    · rw [bind_of_ok hrun, bind_of_ok hrun, hfg a (hx environment s a s' hrun)]

end EvalM

/-! ### Types -/

/-- The value is one of a type, which is not that of errors. -/
structure Value.Conforms (target : ValueType) (value : Value) : Prop where
  type : value.type = target
  sound : target ≠ .error

namespace Concrete

variable {context : Context} {target : ValueType} {value : Concrete}

theorem type_convert? {result : Concrete} (h : value.convert? target = some result) :
    result.type = target ∧ target ≠ .error := by
  unfold convert? at h
  split at h
  case h_1 =>
    obtain ⟨magnitude, -, rfl⟩ := Option.map_eq_some_iff.mp h
    exact ⟨rfl, nofun⟩
  case h_3 =>
    split at h
    · cases h
      exact ⟨rfl, nofun⟩
    · cases h
  case h_13 => cases h
  all_goals
    cases h
    exact ⟨rfl, nofun⟩

theorem convert?_magnitude {n : ℤ} {result : Concrete}
    (h : (integer n).convert? .quantity = some result) :
    ∃ q, result = quantity q ∧ (quantity q).convert? .integer = some (integer n) := by
  obtain ⟨d, hd, rfl⟩ := Option.map_eq_some_iff.mp h
  refine ⟨_, rfl, ?_⟩
  have hintegral : (none : Option String).isNone = true ∧ d.isIntegral = true :=
    ⟨rfl, Decimal.isIntegral_of_ofInt? hd⟩
  change (if (none : Option String).isNone = true ∧ d.isIntegral = true then
    some (integer d.integerPart) else none) = _
  rw [if_pos hintegral, Decimal.integerPart_of_ofInt? hd]

theorem gives_castPlain? (hsound : value.type ≠ .error) :
    (value.castPlain? context target).Gives fun result =>
      ∀ v, result = some v → v.Conforms target := by
  unfold castPlain?
  split
  next htype =>
    apply EvalM.gives_pure
    rintro _ ⟨⟩
    exact ⟨htype, htype ▸ hsound⟩
  next =>
    split
    next hboolean =>
      apply EvalM.gives_pure
      rintro _ ⟨⟩
      exact ⟨hboolean.symm, by simp [hboolean]⟩
    next =>
      split
      next hset =>
        split
        next ids _ =>
          refine EvalM.gives_bind fun set => EvalM.gives_pure ?_
          rintro _ ⟨⟩
          exact ⟨hset.symm, by simp [hset]⟩
        next => exact EvalM.gives_pure nofun
      next =>
        apply EvalM.gives_pure
        intro v hv
        obtain ⟨result, hresult, rfl⟩ := Option.map_eq_some_iff.mp hv
        obtain ⟨htype, htarget⟩ := type_convert? hresult
        exact ⟨htype, htarget⟩

theorem gives_castTo? (context : Context) (target : ValueType) : ∀ value : Concrete,
    (value.castTo? context target).Gives fun result => ∀ v, result = some v → v.Conforms target
  | .error e => EvalM.gives_throw _
  | .annotated inner annotations => by
    unfold castTo?
    split
    next htarget =>
      apply EvalM.gives_pure
      rintro _ ⟨⟩
      exact ⟨htarget.symm, by simp [htarget]⟩
    next =>
      split
      next hboolean =>
        apply EvalM.gives_pure
        rintro _ ⟨⟩
        exact ⟨hboolean.symm, by simp [hboolean]⟩
      next => exact gives_castTo? context target inner
  | .null | .boolean _ | .integer _ | .quantity _ | .string _ | .markdown _ | .date _
  | .partialDate _ | .entry _ | .property _ | .entryType _ | .list _ | .range _ _ | .page _
  | .graph _ => gives_castPlain? nofun

end Concrete

namespace Evaluator

variable (evaluator : Evaluator) {context : Context} {target : ValueType} {value : Value}

theorem cast?_of_conforms (h : value.Conforms target) (context : Context) :
    evaluator.cast? value target context = pure (some value) := by
  obtain ⟨rfl, hsound⟩ := h
  cases value with
  | concrete known =>
    cases known with
    | error e => exact absurd rfl hsound
    | _ => rfl
  | entrySet set => rfl
  | iterable items pageSize source => rfl

theorem gives_force (value : Value) (hlazy : value.isLazy = true) :
    (evaluator.force value).Gives fun known => known.type = .page := by
  have hpage (pageSize : Nat) :
      (evaluator.firstPage value pageSize).Gives fun known => known.type = .page := by
    refine EvalM.gives_bind fun items => ?_
    split <;> exact EvalM.gives_bind fun totalCount => EvalM.gives_pure rfl
  cases value with
  | concrete known => cases hlazy
  | entrySet set => exact hpage set.pageSize
  | iterable items pageSize source => exact hpage pageSize

theorem gives_castLazy? (context : Context) (target : ValueType) (hlazy : value.isLazy = true) :
    (evaluator.castLazy? value target context).Gives fun result =>
      ∀ v, result = some v → v.Conforms target := by
  unfold castLazy?
  split
  case h_1 =>
    refine EvalM.gives_bind fun n => EvalM.gives_pure ?_
    rintro _ ⟨⟩
    exact ⟨rfl, nofun⟩
  case h_2 =>
    refine (evaluator.gives_force value hlazy).bind fun known hknown => EvalM.gives_pure ?_
    rintro _ ⟨⟩
    exact ⟨hknown, nofun⟩
  case h_3 =>
    refine EvalM.gives_bind fun environment => EvalM.gives_bind fun items => EvalM.gives_pure ?_
    rintro _ ⟨⟩
    exact ⟨rfl, nofun⟩
  case h_4 | h_5 => exact EvalM.gives_pure nofun
  case h_6 => exact EvalM.gives_bind fun known => Concrete.gives_castTo? context _ known

theorem gives_cast? (value : Value) (target : ValueType) (context : Context) :
    (evaluator.cast? value target context).Gives fun result =>
      ∀ v, result = some v → v.Conforms target := by
  have hlazy (hvalue : value.isLazy = true) (hsound : value.type ≠ .error) :
      EvalM.Gives (if value.type = target then pure (some value)
        else evaluator.castLazy? value target context) fun result =>
          ∀ v, result = some v → v.Conforms target := by
    split
    next htype =>
      apply EvalM.gives_pure
      rintro _ ⟨⟩
      exact ⟨htype, htype ▸ hsound⟩
    next => exact evaluator.gives_castLazy? context target hvalue
  cases value with
  | concrete known => exact Concrete.gives_castTo? context target known
  | entrySet set => exact hlazy rfl nofun
  | iterable items pageSize source => exact hlazy rfl nofun

theorem gives_castFirst? (value : Value) (context : Context) (targets : List ValueType) :
    (evaluator.castFirst? value context targets).Gives fun result =>
      ∀ v, result = some v → ∃ target ∈ targets, v.Conforms target := by
  induction targets with
  | nil => exact EvalM.gives_pure nofun
  | cons target targets ih =>
    refine (evaluator.gives_cast? value target context).bind fun result hresult => ?_
    cases result with
    | some converted =>
      apply EvalM.gives_pure
      rintro _ ⟨⟩
      exact ⟨target, List.mem_cons_self, hresult _ rfl⟩
    | none =>
      refine ih.weaken fun result hrest v hv => ?_
      obtain ⟨target', htarget', hconforms⟩ := hrest v hv
      exact ⟨target', List.mem_cons_of_mem _ htarget', hconforms⟩

theorem gives_evaluateAs (context : Context) (e : Expr) (targets : List ValueType) :
    (evaluator.evaluateAs context e targets).Gives fun v => v.type ∈ targets := by
  refine EvalM.gives_bind fun value => ?_
  split
  next hmem => exact EvalM.gives_pure (List.contains_iff_mem.mp hmem)
  next =>
    refine (evaluator.gives_castFirst? value context targets).bind fun result hresult => ?_
    cases result with
    | some converted =>
      obtain ⟨target, htarget, hconforms⟩ := hresult _ rfl
      exact EvalM.gives_pure (hconforms.type ▸ htarget)
    | none => exact EvalM.gives_bind fun environment => EvalM.gives_throw _

/-- A single type that an expression is asked for is the type of its value, so it does not matter
how the evaluation goes on behind values of other types. -/
theorem bind_evaluateAs_congr {α : Type} (context : Context) (e : Expr) (target : ValueType)
    {f g : Value → EvalM α} (hfg : ∀ v, v.type = target → f v = g v) :
    evaluator.evaluateAs context e [target] >>= f =
      evaluator.evaluateAs context e [target] >>= g :=
  (evaluator.gives_evaluateAs context e [target]).bind_congr
    fun v hv => hfg v (List.mem_singleton.mp hv)

section

variable (context : Context) (e : Expr)

theorem evaluateBool_eq (otherwise : EvalM Bool) :
    evaluator.evaluateBool context e = (do
      match ← evaluator.evaluateAs context e [.boolean] with
      | .concrete (.boolean b) => return b
      | _ => otherwise) := by
  refine evaluator.bind_evaluateAs_congr context e .boolean fun v hv => ?_
  cases v with
  | concrete known =>
    cases known with
    | boolean b => rfl
    | _ => cases hv
  | _ => cases hv

theorem evaluateInt_eq (otherwise : EvalM Int) :
    evaluator.evaluateInt context e = (do
      match ← evaluator.evaluateAs context e [.integer] with
      | .concrete (.integer n) => return n
      | _ => otherwise) := by
  refine evaluator.bind_evaluateAs_congr context e .integer fun v hv => ?_
  cases v with
  | concrete known =>
    cases known with
    | integer n => rfl
    | _ => cases hv
  | _ => cases hv

theorem evaluateText_eq (otherwise : EvalM String) :
    evaluator.evaluateText context e = (do
      match ← evaluator.evaluateAs context e [.string] with
      | .concrete (.string s) => return s
      | _ => otherwise) := by
  refine evaluator.bind_evaluateAs_congr context e .string fun v hv => ?_
  cases v with
  | concrete known =>
    cases known with
    | string s => rfl
    | _ => cases hv
  | _ => cases hv

theorem evaluateEntrySet_eq (otherwise : EvalM EntrySet) :
    evaluator.evaluateEntrySet context e = (do
      match ← evaluator.evaluateAs context e [.lazyEntrySet] with
      | .entrySet set => return set
      | _ => otherwise) := by
  refine evaluator.bind_evaluateAs_congr context e .lazyEntrySet fun v hv => ?_
  cases v with
  | concrete known => cases known <;> cases hv
  | entrySet set => rfl
  | iterable items pageSize source => cases hv

end

end Evaluator

/-! ### Annotations -/

namespace Concrete

variable {context : Context} {target : ValueType} {value annotated : Concrete}
  {annotations : Dict String Concrete}

theorem eq_annotated_of_annotate (h : value.annotate annotations = .ok annotated) :
    ∃ told, annotated = .annotated value.unannotated told := by
  unfold annotate at h
  split at h
  · cases h
  · split at h
    · cases h
    · cases value <;> cases h <;> exact ⟨_, rfl⟩

theorem castTo?_annotated_congr (htarget : target ≠ .annotated)
    (told told' : Dict String Concrete) :
    castTo? context target (.annotated value told) =
      castTo? context target (.annotated value told') := by
  unfold castTo?
  rw [if_neg htarget, if_neg htarget]
  rfl

theorem castTo?_annotated_boolean (told : Dict String Concrete) :
    castTo? context .boolean (.annotated value told) =
      pure (some (.concrete (.boolean (Concrete.annotated value told).isTruthy))) := by
  unfold castTo?
  rfl

/-- Without its annotations a value converts as with them, unless it is an error asked for its
truth. -/
theorem castTo?_annotated (htarget : target ≠ .annotated) (hvalue : value.type ≠ .annotated)
    (hsound : target = .boolean → ∀ error, value ≠ .error error) (told : Dict String Concrete) :
    castTo? context target (.annotated value told) = castTo? context target value := by
  by_cases hboolean : target = .boolean
  · subst hboolean
    rw [castTo?_annotated_boolean]
    cases value with
    | annotated inner existing => exact absurd rfl hvalue
    | error error => exact absurd rfl (hsound rfl error)
    | _ => rfl
  · rw [castTo?, if_neg htarget, if_neg hboolean]

theorem castTo?_annotate (h : value.annotate annotations = .ok annotated)
    (htarget : target ≠ .annotated)
    (hsound : target = .boolean → ∀ error, value ≠ .error error) :
    annotated.castTo? context target = value.castTo? context target := by
  obtain ⟨told, rfl⟩ := eq_annotated_of_annotate h
  by_cases hvalue : value.type = .annotated
  · cases value with
    | annotated inner existing => exact castTo?_annotated_congr htarget told existing
    | _ => cases hvalue
  · have hunannotated : value.unannotated = value := by
      cases value with
      | annotated inner existing => exact absurd rfl hvalue
      | _ => rfl
    rw [hunannotated]
    exact castTo?_annotated htarget hvalue hsound told

end Concrete

/-! ### The laws of conversions -/

namespace Evaluator

variable (evaluator : Evaluator)

/-- Conversions are sound and, but for errors asked for their truth, blind to annotations. What is
given is of the type and converts into itself, and nothing else can come up where a type is asked
for, so it does not matter what would happen then. An integer is found again behind its magnitude,
and an error arises again. A value with annotations converts as it does without them; only an error
is true with annotations. -/
theorem cast?_lawful (context : Context) (target : ValueType) :
    (∀ environment s value converted s',
      evaluator.cast? value target context environment s = some (.ok (some converted), s') →
      converted.type = target ∧ ∀ (evaluator' : Evaluator) (context' : Context),
        evaluator'.cast? converted target context' = pure (some converted)) ∧
    (∀ (e : Expr), (∀ otherwise, evaluator.evaluateBool context e = (do
        match ← evaluator.evaluateAs context e [.boolean] with
        | .concrete (.boolean b) => return b
        | _ => otherwise)) ∧
      (∀ otherwise, evaluator.evaluateInt context e = (do
        match ← evaluator.evaluateAs context e [.integer] with
        | .concrete (.integer n) => return n
        | _ => otherwise)) ∧
      (∀ otherwise, evaluator.evaluateText context e = (do
        match ← evaluator.evaluateAs context e [.string] with
        | .concrete (.string text) => return text
        | _ => otherwise)) ∧
      ∀ otherwise, evaluator.evaluateEntrySet context e = (do
        match ← evaluator.evaluateAs context e [.lazyEntrySet] with
        | .entrySet set => return set
        | _ => otherwise)) ∧
    (∀ environment s n magnitude s', evaluator.cast? (.concrete (.integer n)) .quantity context
        environment s = some (.ok (some magnitude), s') →
      evaluator.cast? magnitude .integer context = pure (some (.concrete (.integer n)))) ∧
    (∀ error, evaluator.cast? (.concrete (.error error)) target context =
      throw (.expression error)) ∧
    ∀ (value annotated : Concrete) (annotations : Dict String Concrete),
      value.annotate annotations = .ok annotated → target ≠ .annotated →
      (evaluator.cast? (.concrete annotated) target context =
          evaluator.cast? (.concrete value) target context ↔
        ¬ (target = .boolean ∧ ∃ error, value = .error error)) ∧
      (target = .boolean → (∃ error, value = .error error) →
        evaluator.cast? (.concrete annotated) target context =
          pure (some (.concrete (.boolean true)))) := by
  refine ⟨?sound, fun e => ⟨evaluator.evaluateBool_eq context e, evaluator.evaluateInt_eq context e,
    evaluator.evaluateText_eq context e, evaluator.evaluateEntrySet_eq context e⟩, ?magnitude,
    fun error => rfl, ?blind⟩
  case sound =>
    intro environment s value converted s' hrun
    have hconforms := evaluator.gives_cast? value target context _ _ _ _ hrun converted rfl
    exact ⟨hconforms.type, fun evaluator' => evaluator'.cast?_of_conforms hconforms⟩
  case magnitude =>
    intro environment s n magnitude s' hrun
    have hcast : (some (.ok (((Concrete.integer n).convert? .quantity).map Value.concrete), s) :
        Option (Except Error (Option Value) × EvalState)) = some (.ok (some magnitude), s') := hrun
    rw [Option.some.injEq, Prod.mk.injEq, Except.ok.injEq, Option.map_eq_some_iff] at hcast
    obtain ⟨⟨known, hknown, rfl⟩, -⟩ := hcast
    obtain ⟨d, rfl, hback⟩ := Concrete.convert?_magnitude hknown
    change Pure.pure (((Concrete.quantity d).convert? .integer).map Value.concrete) = _
    rw [hback]
    rfl
  case blind =>
    intro value annotated annotations hannotate htarget
    have herror (hboolean : target = .boolean) (error : ExprError) (hvalue : value = .error error) :
        evaluator.cast? (.concrete annotated) target context =
          pure (some (.concrete (.boolean true))) := by
      subst hboolean hvalue
      obtain ⟨told, rfl⟩ := Concrete.eq_annotated_of_annotate hannotate
      exact Concrete.castTo?_annotated_boolean told
    refine ⟨⟨?_, fun hsound => ?_⟩, fun hboolean ⟨error, hvalue⟩ => herror hboolean error hvalue⟩
    · rintro hsame ⟨hboolean, error, rfl⟩
      have hraised := (herror hboolean error rfl).symm.trans hsame
      cases congrFun (congrFun hraised { graph := { site := ⟨""⟩ } }) {}
    · exact Concrete.castTo?_annotate hannotate htarget
        fun hboolean error hvalue => hsound ⟨hboolean, error, hvalue⟩

/-- The greatest integer that is a magnitude, with an annotation: it converts as it does without,
and is found again behind its magnitude. -/
theorem cast?_lawful_greatest :
    let greatest : Concrete := .integer 79228162514264337593543950335
    let annotated : Concrete := .annotated greatest [("of", .string "all")]
    let context : Context := ⟨⟨"s"⟩, none, none, 10, [], 0⟩
    greatest.annotate [("of", .string "all")] = .ok annotated ∧
      ∃ magnitude, (ofDepth 1).cast? (.concrete annotated) .quantity context =
          pure (some magnitude) ∧ magnitude.type = .quantity ∧
        (ofDepth 1).cast? magnitude .integer context = pure (some (.concrete greatest)) := by
  intro greatest annotated context
  have hannotate : greatest.annotate [("of", .string "all")] = .ok annotated := rfl
  obtain ⟨hsound, -, hmagnitude, -, hblind⟩ := cast?_lawful (ofDepth 1) context .quantity
  obtain ⟨hsame, -⟩ := hblind greatest annotated _ hannotate nofun
  refine ⟨hannotate, _, hsame.mpr nofun, ?_⟩
  let environment : Environment := { graph := { site := ⟨"s"⟩ } }
  exact ⟨(hsound environment {} (.concrete greatest) _ {} rfl).1,
    hmagnitude environment {} 79228162514264337593543950335 _ {} rfl⟩

/-- The tree of `[x].annotate(a=1).first()`. -/
def annotatedUnknown : Expr :=
  .call (.builtin .first) (some (.call (.builtin .annotate) (some (.list [.var "x"]))
    [("a", .literal (.integer 1))])) []

/-- An error in a list arises again where its truth is asked for, but with an annotation it reads as
true. -/
theorem cast?_of_annotated_error :
    let environment : Environment := { graph := { site := ⟨"s"⟩ } }
    let context : Context := ⟨⟨"s"⟩, none, none, 10, [], 0⟩
    let unknown : Concrete := .error (.eval (.undefinedVariable "x"))
    let annotated : Concrete := .annotated unknown [("a", .integer 1)]
    Expr.parse {} "[x].annotate(a=1).first()" = .ok annotatedUnknown ∧
    (∃ s, (ofDepth 20).evaluate context annotatedUnknown environment
      ({} : EvalState).withCache = some (.ok (.concrete annotated), s)) ∧
    unknown.annotate [("a", .integer 1)] = .ok annotated ∧
    (ofDepth 20).cast? (.concrete annotated) .boolean context =
      pure (some (.concrete (.boolean true))) ∧
    (ofDepth 20).cast? (.concrete unknown) .boolean context =
      throw (Error.eval (.undefinedVariable "x")) :=
  ⟨rfl, ⟨_, rfl⟩, rfl, rfl, rfl⟩

end Evaluator

end GraphExpr
