/-
Purpose: A row that is looked up by what names it and, where there is none, inserted under a drawn
  id, in a sequence of steps that may fail.
Trusted boundary: none
-/
import Mathlib.Data.List.Nodup

namespace HelixKit.Upsert

variable {Row Id Failure : Type} [DecidableEq Id]

/-- `draw` gives the ids and `drawn` counts those that were used. -/
def upsert (draw : Nat → Id) (idOf : Row → Id) (taken : Failure) (names : Row → Bool)
    (make : Id → Except Failure Row) (rows : List Row) (drawn : Nat) :
    Except Failure (Id × List Row × Nat) :=
  match rows.find? names with
  | some existing => .ok (idOf existing, rows, drawn)
  | none => do
      let row ← make (draw drawn)
      if rows.any fun other => idOf other = draw drawn then .error taken
      else .ok (draw drawn, rows ++ [row], drawn + 1)

variable {draw : Nat → Id} {idOf : Row → Id} {taken : Failure} {names : Row → Bool}
  {make : Id → Except Failure Row} {rows rows' : List Row} {drawn drawn' : Nat} {id : Id}

/-- The row was there, or it was not and is now the last. -/
theorem upsert_cases
    (returned : upsert draw idOf taken names make rows drawn = .ok (id, rows', drawn')) :
    (∃ row, rows.find? names = some row ∧ idOf row = id ∧ rows' = rows ∧ drawn' = drawn) ∨
    (rows.find? names = none ∧ ∃ row, make id = .ok row ∧ (∀ other ∈ rows, idOf other ≠ id) ∧
      rows' = rows ++ [row]) := by
  unfold upsert at returned
  cases found : rows.find? names with
  | some row =>
    rw [found] at returned
    obtain ⟨rfl, rfl, rfl⟩ : idOf row = id ∧ rows = rows' ∧ drawn = drawn' := by
      simpa using returned
    exact .inl ⟨row, rfl, rfl, rfl, rfl⟩
  | none =>
    rw [found] at returned
    cases made : make (draw drawn) with
    | error failure => simp [made, bind, Except.bind] at returned
    | ok row =>
      simp only [made, bind, Except.bind] at returned
      split at returned
      · cases returned
      next unused =>
        obtain ⟨rfl, rfl, -⟩ : draw drawn = id ∧ rows ++ [row] = rows' ∧ drawn + 1 = drawn' := by
          simpa using returned
        refine .inr ⟨rfl, row, made, ?_, rfl⟩
        simpa using unused

theorem upsert_extends
    (returned : upsert draw idOf taken names make rows drawn = .ok (id, rows', drawn')) :
    rows <+: rows' := by
  rcases upsert_cases returned with ⟨row, -, -, rfl, -⟩ | ⟨-, row, -, -, rfl⟩
  · exact List.prefix_rfl
  · exact List.prefix_append rows [row]

/-- The row of the id is the first that is named. -/
theorem upsert_found
    (made : ∀ id row, make id = .ok row → idOf row = id ∧ names row = true)
    (returned : upsert draw idOf taken names make rows drawn = .ok (id, rows', drawn')) :
    (rows'.find? names).map idOf = some id := by
  rcases upsert_cases returned with ⟨row, found, rfl, rfl, -⟩ | ⟨missing, row, made_row, -, rfl⟩
  · rw [found, Option.map_some]
  · obtain ⟨named, matching⟩ := made id row made_row
    rw [List.find?_append, missing, List.find?_cons_of_pos matching]
    exact congrArg some named

omit [DecidableEq Id] in
/-- The ids stay apart when a row with a new one comes last. -/
theorem nodup_map_concat {row : Row} (ids : (rows.map idOf).Nodup)
    (unused : ∀ other ∈ rows, idOf other ≠ idOf row) : ((rows ++ [row]).map idOf).Nodup := by
  rw [List.map_append, List.map_singleton, List.nodup_append]
  refine ⟨ids, List.nodup_singleton _, ?_⟩
  intro id id_mem other other_mem
  obtain ⟨existing, existing_mem, rfl⟩ := List.mem_map.mp id_mem
  rw [List.mem_singleton.mp other_mem]
  exact unused existing existing_mem

/-- No two rows get the same id. -/
theorem upsert_nodup (ids : (rows.map idOf).Nodup)
    (made : ∀ id row, make id = .ok row → idOf row = id)
    (returned : upsert draw idOf taken names make rows drawn = .ok (id, rows', drawn')) :
    (rows'.map idOf).Nodup := by
  rcases upsert_cases returned with ⟨row, -, -, rfl, -⟩ | ⟨-, row, made_row, unused, rfl⟩
  · exact ids
  · obtain rfl := made id row made_row
    exact nodup_map_concat ids unused

/-- A row that is there is found and nothing is drawn. -/
theorem upsert_again (found : (rows.find? names).map idOf = some id) :
    upsert draw idOf taken names make rows drawn = .ok (id, rows, drawn) := by
  obtain ⟨row, row_eq, rfl⟩ := Option.map_eq_some_iff.mp found
  simp only [upsert, row_eq]

theorem find?_extends {later : List Row} {row : Row} (longer : rows <+: later)
    (found : rows.find? names = some row) : later.find? names = some row := by
  obtain ⟨rest, rfl⟩ := longer
  rw [List.find?_append, found, Option.some_or]

end HelixKit.Upsert
