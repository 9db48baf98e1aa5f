import GraphExpr.Eval.Run
import GraphExpr.Proofs.Except

/-! # The size of a value

How many items a value has, which counting tells and which bounds what slices can give.
-/

namespace GraphExpr

def EntrySet.size (environment : Environment) (set : EntrySet) : Except Error Nat :=
  match environment.outage .execute with
  | some e => .error (.store e)
  | none => .ok (environment.graph.selectRows set.fragment).length

mutual

def Value.size (environment : Environment) : Value → Except Error Nat
  | .concrete known =>
    match known.count? with
    | some n => .ok n
    | none =>
      .error
        (Error.eval (.custom ("A " ++ known.type.name ++ " value cannot be " ++ "counted" ++ ".")))
  | .entrySet set => set.size environment
  | .iterable items _ _ => items.size environment

/-- The number of items of a sequence, which is that of the items it is made from. -/
def Generator.size (environment : Environment) : Generator → Except Error Nat
  | .mapped inner .. => inner.size environment
  | .sorted inner .. => inner.size environment
  | .annotated inner _ => inner.size environment
  | .detailed entries .. => entries.size environment

end

mutual

/-- How often sequences are made from each other in a value. -/
def Value.rank : Value → Nat
  | .iterable items _ _ => items.rank + 1
  | _ => 0

def Generator.rank : Generator → Nat
  | .mapped inner .. => inner.rank
  | .sorted inner .. => inner.rank
  | .annotated inner _ => inner.rank
  | .detailed .. => 0

end

/-- Whether a value is a sequence in an order of its own. -/
def Value.IsSorted : Value → Prop
  | .iterable (.sorted ..) _ _ => True
  | _ => False

theorem Value.IsSorted.eq_sorted {v : Value} (h : v.IsSorted) :
    ∃ inner key descending scope buffer pageSize source,
      v = .iterable (.sorted inner key descending scope buffer) pageSize source := by
  unfold IsSorted at h
  split at h
  · exact ⟨_, _, _, _, _, _, _, rfl⟩
  · exact h.elim

/-- The number of items in a slice of a value: as many as wanted, as far as there are. -/
def Value.Sliced (environment : Environment) (value : Value) (offset count : Nat)
    (items : List Concrete) : Prop :=
  count ≠ 0 → ∃ n, value.size environment = .ok n ∧ items.length = min count (n - offset)

/-- The number of items collected behind the given number of items: all there are. -/
def Value.Collected (environment : Environment) (value : Value) (pulled : Nat)
    (items : List Concrete) : Prop :=
  ∃ n, value.size environment = .ok n ∧ items.length = max pulled n

variable {environment : Environment}

theorem EntrySet.size_of_executable (h : environment.outage .execute = none) (set : EntrySet) :
    set.size environment = .ok (environment.graph.selectRows set.fragment).length := by
  unfold size
  rw [h]

theorem EntrySet.countOf_execute (graph : Graph) (fragment : Fragment) :
    countOf (graph.execute ⟨fragment, .count⟩) =
      Pure.pure (graph.selectRows fragment).length := by
  have hcount : ((graph.execute ⟨fragment, .count⟩).head?.bind fun row =>
      (row.find? "count").bind Json.nat64?) = some (graph.selectRows fragment).length := by
    simp [Graph.execute, Dict.find?, Json.int, Json.nat64?]
  unfold countOf
  rw [hcount]

theorem Graph.length_execute_page (graph : Graph) (fragment : Fragment) (offset count : Nat) :
    (graph.execute ⟨fragment, .page offset count⟩).length =
      min count ((graph.selectRows fragment).length - offset) := by
  simp [Graph.execute]

theorem Value.sliced_concrete {known : Concrete} {offset count : Nat} {items : List Concrete}
    (h : known.slice? offset count = some items) :
    (Value.concrete known).Sliced environment offset count items := by
  intro _
  obtain ⟨all, hall, rfl⟩ := Option.map_eq_some_iff.mp h
  refine ⟨all.length, ?_, by simp⟩
  unfold Value.size Concrete.count?
  rw [hall]
  rfl

theorem Value.Sliced.collected {value : Value} {pulled chunk : List Concrete} {count : Nat}
    (h : value.Sliced environment pulled.length count chunk) (hc : 0 < count)
    (hlast : chunk.length < count) :
    value.Collected environment pulled.length (pulled ++ chunk) := by
  obtain ⟨n, hn, hlength⟩ := h (by omega)
  refine ⟨n, hn, ?_⟩
  rw [List.length_append]
  omega

theorem Value.Sliced.resume {value : Value} {pulled chunk items : List Concrete} {count : Nat}
    (h : value.Sliced environment pulled.length count chunk) (hc : 0 < count)
    (hmore : ¬ chunk.length < count)
    (hrest : value.Collected environment (pulled ++ chunk).length items) :
    value.Collected environment pulled.length items := by
  obtain ⟨n, hn, hlength⟩ := h (by omega)
  obtain ⟨n', hn', hitems⟩ := hrest
  obtain rfl : n = n' := by
    rw [hn] at hn'
    exact Except.ok.inj hn'
  refine ⟨n, hn, ?_⟩
  rw [List.length_append] at hitems
  omega

end GraphExpr
