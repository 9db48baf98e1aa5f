import GraphExpr.Proofs.Graph.Within

/-! # The rows of a fragment

A fragment selects the entries to which its rows bind the variable that is meant, each of them
once.
-/

namespace GraphExpr.Graph

variable {graph : Graph}

theorem applyClauses_append (clauses more : List Clause) (rows : List Bindings) :
    graph.applyClauses rows (clauses ++ more) =
      graph.applyClauses (graph.applyClauses rows clauses) more := by
  induction clauses generalizing rows with
  | nil => rw [List.nil_append, applyClauses]
  | cons clause clauses ih => rw [List.cons_append, applyClauses, applyClauses, ih]

def rowsOf (graph : Graph) (f : Fragment) : List Bindings :=
  graph.applyClauses [[]] f.clauses

theorem rowsOf_push (f : Fragment) (clause : Clause) :
    graph.rowsOf (f.push clause) = graph.applyClause (graph.rowsOf f) clause := by
  show graph.applyClauses [[]] (f.clauses ++ [clause]) = _
  rw [applyClauses_append, applyClauses, applyClauses]
  rfl

theorem within_rowsOf {p : EntryId → Prop} (hg : graph.Within p) (f : Fragment) :
    ∀ row ∈ graph.rowsOf f, row.Within p :=
  within_applyClauses hg f.clauses (List.forall_mem_singleton.mpr Bindings.within_nil)

/-! ### Selected entries -/

theorem exists_distinctBy {var : Var} {row : Bindings} {id : EntryId} {rows : List Bindings}
    (hrow : row ∈ rows) (hid : row.entry? var = some id) {seen : List EntryId} (hnew : id ∉ seen) :
    ∃ selected ∈ distinctBy var seen rows, selected.1 = id := by
  induction rows generalizing seen with
  | nil => exact absurd hrow List.not_mem_nil
  | cons first rest ih =>
    rw [distinctBy]
    rcases List.mem_cons.mp hrow with rfl | hrest
    · rw [hid]
      simp [hnew]
    · split
      next => exact ih hrest hnew
      next other _ =>
        split
        · exact ih hrest hnew
        · by_cases hsame : id = other
          · exact ⟨_, List.mem_cons_self, hsame.symm⟩
          · have hnew' : id ∉ other :: seen := by simp [hsame, hnew]
            obtain ⟨selected, hselected, rfl⟩ := ih hrest hnew'
            exact ⟨selected, List.mem_cons_of_mem _ hselected, rfl⟩

theorem nodup_distinctBy (var : Var) (rows : List Bindings) (seen : List EntryId) :
    ((distinctBy var seen rows).map Prod.fst).Nodup ∧
      ∀ selected ∈ distinctBy var seen rows, selected.1 ∉ seen := by
  induction rows generalizing seen with
  | nil => simp [distinctBy]
  | cons first rest ih =>
    rw [distinctBy]
    split
    next => exact ih seen
    next id _ =>
      split
      next => exact ih seen
      next hnew =>
        obtain ⟨hnodup, hseen⟩ := ih (id :: seen)
        constructor
        · rw [List.map_cons, List.nodup_cons]
          refine ⟨fun hmem => ?_, hnodup⟩
          obtain ⟨selected, hselected, hsame⟩ := List.mem_map.mp hmem
          exact hseen selected hselected (hsame ▸ List.mem_cons_self)
        · intro selected hselected
          rcases List.mem_cons.mp hselected with rfl | hselected
          · simpa using hnew
          · exact fun hmem => hseen selected hselected (List.mem_cons_of_mem _ hmem)

variable {f : Fragment}

theorem selectRows_eq (f : Fragment) : graph.selectRows f =
    if f.site = graph.site then distinctBy f.entity [] (graph.ordered f.order (graph.rowsOf f))
    else [] := by
  obtain ⟨site, clauses, entity, annotations, order, varCount⟩ := f
  rw [selectRows]
  rfl

theorem mem_selectRows {selected : EntryId × Bindings} (h : selected ∈ graph.selectRows f) :
    f.site = graph.site ∧ selected.2 ∈ graph.rowsOf f ∧
      Bindings.entry? selected.2 f.entity = some selected.1 := by
  rw [selectRows_eq] at h
  split at h
  next hsite =>
    obtain ⟨hrow, hid⟩ := mem_of_mem_distinctBy h
    exact ⟨hsite, mem_ordered.mp hrow, hid⟩
  next => exact absurd h List.not_mem_nil

theorem nodup_selectRows (f : Fragment) : ((graph.selectRows f).map Prod.fst).Nodup := by
  rw [selectRows_eq]
  split
  · exact (nodup_distinctBy _ _ _).1
  · exact List.nodup_nil

/-- The entries that a fragment selects are those to which its rows bind the variable. -/
theorem mem_map_selectRows (hsite : f.site = graph.site) {id : EntryId} :
    id ∈ (graph.selectRows f).map Prod.fst ↔
      ∃ row ∈ graph.rowsOf f, row.entry? f.entity = some id := by
  constructor
  · intro h
    obtain ⟨selected, hselected, rfl⟩ := List.mem_map.mp h
    obtain ⟨-, hrow, hid⟩ := mem_selectRows hselected
    exact ⟨selected.2, hrow, hid⟩
  · rintro ⟨row, hrow, hid⟩
    rw [selectRows_eq, if_pos hsite]
    obtain ⟨selected, hselected, rfl⟩ :=
      exists_distinctBy (mem_ordered.mpr hrow) hid (List.not_mem_nil (a := id))
    exact List.mem_map_of_mem hselected

/-! ### Answers -/

theorem answer_eq (graph : Graph) (query : Query) :
    graph.answer query = .ok (graph.execute query) := by
  have hrows {selected : List (EntryId × Bindings)}
      (h : ∀ x ∈ selected, x ∈ graph.selectRows query.fragment) :
      (selected.map Prod.snd).mapM (graph.answerRow query.fragment) =
        .ok (selected.map (graph.project query.fragment.annotations)) := by
    induction selected with
    | nil => rfl
    | cons x selected ih =>
      obtain ⟨hx, hselected⟩ := List.forall_mem_cons.mp h
      have hrow : graph.answerRow query.fragment x.2 =
          .ok (graph.project query.fragment.annotations x) := by
        rw [answerRow, (mem_selectRows hx).2.2]
      rw [List.map_cons, List.mapM_cons, hrow, ih hselected]
      rfl
  unfold answer execute
  cases query.terminal with
  | count => simp
  | page skip limit =>
    dsimp only
    rw [← List.map_drop, ← List.map_take]
    exact hrows fun x hx => List.mem_of_mem_drop (List.mem_of_mem_take hx)

end GraphExpr.Graph
