/-
Purpose: Sequences of steps that may fail, and what is known of the steps of one that returned.
Trusted boundary: none
-/
import Mathlib.Data.List.Basic

namespace HelixKit.Fallible

variable {Failure α β : Type}

variable {result : β}

/-- A sequence returns what its second part returns on the result of the first. -/
theorem bind_eq_ok {first : Except Failure α} {second : α → Except Failure β} :
    (first >>= second) = .ok result ↔ ∃ value, first = .ok value ∧ second value = .ok result := by
  cases first with
  | error failure => simp [bind, Except.bind]
  | ok value => simp [bind, Except.bind]

theorem bind_eq_error {first : Except Failure α} {second : α → Except Failure β}
    {failure : Failure} :
    (first >>= second) = .error failure ↔
      first = .error failure ∨ ∃ value, first = .ok value ∧ second value = .error failure := by
  cases first with
  | error failure => simp [bind, Except.bind]
  | ok value => simp [bind, Except.bind]

theorem map_eq_ok {first : Except Failure α} {change : α → β} :
    first.map change = .ok result ↔ ∃ value, first = .ok value ∧ change value = result := by
  cases first with
  | error failure => simp [Except.map]
  | ok value => simp [Except.map]

variable {results : List β}

theorem mapM_cons_eq_ok {step : α → Except Failure β} {first : α} {more : List α} :
    (first :: more).mapM step = .ok results ↔
      ∃ head rest, step first = .ok head ∧ more.mapM step = .ok rest ∧ results = head :: rest := by
  rw [List.mapM_cons, bind_eq_ok]
  constructor
  · rintro ⟨head, taken, returned⟩
    obtain ⟨rest, others, same⟩ := bind_eq_ok.mp returned
    exact ⟨head, rest, taken, others, (Except.ok.inj same).symm⟩
  · rintro ⟨head, rest, taken, others, rfl⟩
    exact ⟨head, taken, bind_eq_ok.mpr ⟨rest, others, rfl⟩⟩

/-- Each element has its result. -/
theorem mapM_mem {step : α → Except Failure β} {list : List α}
    (returned : list.mapM step = .ok results) {value : α} (member : value ∈ list) :
    ∃ result ∈ results, step value = .ok result := by
  induction list generalizing results with
  | nil => cases member
  | cons first more ih =>
    obtain ⟨head, rest, taken, others, rfl⟩ := mapM_cons_eq_ok.mp returned
    obtain rfl | member := List.mem_cons.mp member
    · exact ⟨head, List.mem_cons_self, taken⟩
    · obtain ⟨result, inRest, same⟩ := ih others member
      exact ⟨result, List.mem_cons_of_mem _ inRest, same⟩

/-- Each result is that of an element. -/
theorem mem_mapM {step : α → Except Failure β} {list : List α}
    (returned : list.mapM step = .ok results) (member : result ∈ results) :
    ∃ value ∈ list, step value = .ok result := by
  induction list generalizing results with
  | nil =>
    cases returned
    cases member
  | cons first more ih =>
    obtain ⟨head, rest, taken, others, rfl⟩ := mapM_cons_eq_ok.mp returned
    obtain rfl | member := List.mem_cons.mp member
    · exact ⟨first, List.mem_cons_self, taken⟩
    · obtain ⟨value, inMore, same⟩ := ih others member
      exact ⟨value, List.mem_cons_of_mem _ inMore, same⟩

/-- A result stands where its element does. -/
theorem mapM_split {step : α → Except Failure β} {list : List α} {before after : List β}
    (returned : list.mapM step = .ok (before ++ result :: after)) :
    ∃ first value last, list = first ++ value :: last ∧ first.mapM step = .ok before ∧
      step value = .ok result := by
  induction before generalizing list with
  | nil =>
    cases list with
    | nil => cases returned
    | cons value more =>
      obtain ⟨head, rest, taken, _, same⟩ := mapM_cons_eq_ok.mp returned
      cases same
      exact ⟨[], value, more, rfl, rfl, taken⟩
  | cons earlier before ih =>
    cases list with
    | nil => cases returned
    | cons head more =>
      obtain ⟨_, rest, taken, others, same⟩ := mapM_cons_eq_ok.mp returned
      cases same
      obtain ⟨first, value, last, rfl, mapped, found⟩ := ih others
      exact ⟨head :: first, value, last, rfl,
        mapM_cons_eq_ok.mpr ⟨earlier, before, taken, mapped, rfl⟩, found⟩

/-- What every step keeps, from the state before it to the state after, a fold keeps. -/
theorem foldlM_related {related : β → β → Prop} (refl : ∀ state, related state state)
    (trans : ∀ {first second third}, related first second → related second third →
      related first third)
    {step : β → α → Except Failure β} {list : List α}
    (steps : ∀ state, ∀ value ∈ list, ∀ after, step state value = .ok after → related state after)
    {state after : β} (returned : list.foldlM step state = .ok after) : related state after := by
  induction list generalizing state with
  | nil =>
    cases returned
    exact refl _
  | cons first more ih =>
    obtain ⟨next, taken, others⟩ := bind_eq_ok.mp (by simpa only [List.foldlM_cons] using returned)
    have one := steps state first List.mem_cons_self next taken
    have many := ih (fun state value member => steps state value (List.mem_cons_of_mem _ member))
      others
    exact trans one many

/-- What a step reaches for its element, and later steps keep, a fold reaches for all. -/
theorem foldlM_reached {related : β → β → Prop} {reached : α → β → Prop}
    (refl : ∀ state, related state state)
    (trans : ∀ {first second third}, related first second → related second third →
      related first third)
    {step : β → α → Except Failure β} {list : List α}
    (steps : ∀ state, ∀ value ∈ list, ∀ after, step state value = .ok after →
      related state after ∧ reached value after)
    (kept : ∀ value before after, related before after → reached value before →
      reached value after)
    {state after : β} (returned : list.foldlM step state = .ok after) :
    ∀ value ∈ list, reached value after := by
  induction list generalizing state with
  | nil => exact fun _ member => nomatch member
  | cons first more ih =>
    obtain ⟨next, taken, others⟩ := bind_eq_ok.mp (by simpa only [List.foldlM_cons] using returned)
    have below := fun state value member => steps state value (List.mem_cons_of_mem first member)
    intro value member
    obtain rfl | member := List.mem_cons.mp member
    · have onward : related next after := foldlM_related refl trans
        (fun state value member after step => (below state value member after step).1) others
      exact kept value next after onward (steps state value List.mem_cons_self next taken).2
    · exact ih below others value member

/-- A fold fails where one of its steps does. -/
theorem foldlM_error {step : β → α → Except Failure β} {list : List α} {state : β}
    {failure : Failure} (failed : list.foldlM step state = .error failure) :
    ∃ value ∈ list, ∃ state, step state value = .error failure := by
  induction list generalizing state with
  | nil => cases failed
  | cons first more ih =>
    obtain stops | ⟨next, _, others⟩ :=
      bind_eq_error.mp (by simpa only [List.foldlM_cons] using failed)
    · exact ⟨first, List.mem_cons_self, state, stops⟩
    · obtain ⟨value, member, found⟩ := ih others
      exact ⟨value, List.mem_cons_of_mem _ member, found⟩

end HelixKit.Fallible
