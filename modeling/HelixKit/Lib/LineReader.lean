/-
Purpose: A reader with a bounded buffer over a source that delivers its bytes in chunks, and what it
  reads a line at a time. It depends on the bytes of the source, not on how they are cut.
Trusted boundary: a source that delivers nothing is asked again
-/
import Mathlib.Data.List.Basic

namespace HelixKit.LineReader

variable {α : Type} [DecidableEq α] (sep : α)

/-! ## Lines -/

/-- The first line, with the separator that ends it, and what follows. -/
def cutLine : List α → Option (List α × List α)
  | [] => none
  | a :: rest =>
    if a = sep then some ([a], rest)
    else (cutLine rest).map fun cut => (a :: cut.1, cut.2)

/-- All lines, the last of which need not be ended. -/
def lines : List α → List (List α)
  | [] => []
  | a :: rest =>
    if a = sep then [a] :: lines rest
    else
      match lines rest with
      | [] => [[a]]
      | line :: more => (a :: line) :: more

variable {sep} {text more line rest : List α}

theorem cutLine_eq_none : cutLine sep text = none ↔ sep ∉ text := by
  induction text with
  | nil => simp [cutLine]
  | cons a text ih =>
    rw [cutLine]
    split
    next same =>
      simp [same]
    next other =>
      simp [ih, Ne.symm other]

theorem cutLine_append_of_not_mem (more : List α) (open_ : sep ∉ text) :
    cutLine sep (text ++ more) = (cutLine sep more).map fun cut => (text ++ cut.1, cut.2) := by
  induction text with
  | nil => simp
  | cons a text ih =>
    obtain ⟨other, later⟩ : sep ≠ a ∧ sep ∉ text := by simpa using open_
    rw [List.cons_append, cutLine, if_neg other.symm, ih later, Option.map_map]
    rfl

/-- A line is ended by the separator, which it has nowhere else. -/
theorem cutLine_eq_some : cutLine sep text = some (line, rest) ↔
    ∃ body, sep ∉ body ∧ line = body ++ [sep] ∧ text = line ++ rest := by
  constructor
  · intro cut
    induction text generalizing line with
    | nil => cases cut
    | cons a text ih =>
      rw [cutLine] at cut
      split at cut
      next same =>
        obtain ⟨rfl, rfl⟩ := Prod.mk.inj (Option.some.inj cut)
        exact ⟨[], by simp, by simp [same], rfl⟩
      next other =>
        obtain ⟨⟨first, after⟩, found, shape⟩ := Option.map_eq_some_iff.mp cut
        obtain ⟨rfl, rfl⟩ := Prod.mk.inj shape
        obtain ⟨body, absent, rfl, rfl⟩ := ih found
        exact ⟨a :: body, by simp [absent, Ne.symm other], rfl, rfl⟩
  · rintro ⟨body, absent, rfl, rfl⟩
    rw [List.append_assoc, cutLine_append_of_not_mem _ absent]
    simp [cutLine]

theorem cutLine_append (more : List α) (cut : cutLine sep text = some (line, rest)) :
    cutLine sep (text ++ more) = some (line, rest ++ more) := by
  obtain ⟨body, absent, ends, rfl⟩ := cutLine_eq_some.mp cut
  exact cutLine_eq_some.mpr ⟨body, absent, ends, List.append_assoc ..⟩

theorem lines_of_cutLine (cut : cutLine sep text = some (line, rest)) :
    lines sep text = line :: lines sep rest := by
  obtain ⟨body, absent, rfl, rfl⟩ := cutLine_eq_some.mp cut
  clear cut
  induction body with
  | nil => simp [lines]
  | cons a body ih =>
    obtain ⟨other, later⟩ : sep ≠ a ∧ sep ∉ body := by simpa using absent
    rw [List.cons_append, List.cons_append, lines, if_neg other.symm, ih later]

theorem lines_of_not_mem (open_ : sep ∉ text) (some_ : text ≠ []) : lines sep text = [text] := by
  induction text with
  | nil => exact absurd rfl some_
  | cons a text ih =>
    obtain ⟨other, later⟩ : sep ≠ a ∧ sep ∉ text := by simpa using open_
    rw [lines, if_neg other.symm]
    by_cases last : text = []
    · subst last
      rfl
    · rw [ih later last]

/-- Lines that were put one after the other. -/
theorem lines_flatten {bodies : List (List α)} (absent : ∀ body ∈ bodies, sep ∉ body) :
    lines sep (bodies.map (· ++ [sep])).flatten = bodies.map (· ++ [sep]) := by
  induction bodies with
  | nil => rfl
  | cons body rest ih =>
    have cut : cutLine sep ((body ++ [sep]) ++ (rest.map (· ++ [sep])).flatten) =
        some (body ++ [sep], (rest.map (· ++ [sep])).flatten) :=
      cutLine_eq_some.mpr ⟨body, absent body List.mem_cons_self, rfl, rfl⟩
    rw [List.map_cons, List.flatten_cons, lines_of_cutLine cut,
      ih fun other member => absent other (List.mem_cons_of_mem body member)]

/-! ## The reader -/

/-- What one call reads: a line with its separator; the whole buffer, without one; or what is left
when the source ends. -/
inductive Slice (α : Type) where
  | line (bytes : List α)
  | full (bytes : List α)
  | ended (bytes : List α)
deriving Repr, DecidableEq

/-- What is in the buffer, and the chunks that the source will deliver. -/
structure Reader (α : Type) where
  buffered : List α
  chunks : List (List α)
deriving Repr, DecidableEq

/-- The bytes that have not been read. -/
def Reader.pending (reader : Reader α) : List α := reader.buffered ++ reader.chunks.flatten

variable (sep) (size : Nat)

/-- What the buffer alone decides. -/
def settled (buffered : List α) (chunks : List (List α)) : Option (Slice α × Reader α) :=
  match cutLine sep buffered with
  | some (line, rest) => some (.line line, ⟨rest, chunks⟩)
  | none => if size ≤ buffered.length then some (.full buffered, ⟨[], chunks⟩) else none

/-- `ReadSlice`: the buffer is filled until it decides. A chunk that does not fit fills it. -/
def readSlice : List α → List (List α) → Slice α × Reader α
  | buffered, [] => (settled sep size buffered []).getD (.ended buffered, ⟨[], []⟩)
  | buffered, chunk :: rest =>
    match settled sep size buffered (chunk :: rest) with
    | some result => result
    | none =>
      let free := size - buffered.length
      if chunk.length ≤ free then readSlice (buffered ++ chunk) rest
      else
        (settled sep size (buffered ++ chunk.take free) (chunk.drop free :: rest)).getD
          (.ended [], ⟨[], []⟩)

/-- What is read when all the bytes are there, and what is left of them. -/
def slice (pending : List α) : Slice α × List α :=
  match cutLine sep (pending.take size) with
  | some (line, rest) => (.line line, rest ++ pending.drop size)
  | none =>
    if size ≤ pending.length then (.full (pending.take size), pending.drop size)
    else (.ended pending, [])

variable {sep} {size}

/-- A buffer that decides, decides as all the bytes do. -/
theorem settled_eq {buffered : List α} {chunks : List (List α)} {result : Slice α × Reader α}
    (fits : buffered.length ≤ size) (done : settled sep size buffered chunks = some result) :
    (result.1, result.2.pending) = slice sep size (buffered ++ chunks.flatten) ∧
      result.2.buffered.length ≤ size := by
  have front : (buffered ++ chunks.flatten).take size =
      buffered ++ chunks.flatten.take (size - buffered.length) := by
    rw [List.take_append, List.take_of_length_le fits]
  unfold settled at done
  split at done
  next line rest cut =>
    obtain rfl := Option.some.inj done
    have whole := cutLine_append (chunks.flatten.take (size - buffered.length)) cut
    refine ⟨?_, ?_⟩
    · rw [slice, front, whole, List.drop_append, List.drop_of_length_le fits, List.nil_append]
      dsimp only
      rw [List.append_assoc, List.take_append_drop]
      rfl
    · obtain ⟨body, -, rfl, rfl⟩ := cutLine_eq_some.mp cut
      simp only [List.length_append] at fits
      dsimp only
      omega
  next open_ =>
    split at done
    next filled =>
      obtain rfl := Option.some.inj done
      have exact_ : buffered.length = size := Nat.le_antisymm fits filled
      have take_eq : (buffered ++ chunks.flatten).take size = buffered := by
        rw [front, exact_, Nat.sub_self, List.take_zero, List.append_nil]
      refine ⟨?_, by simp⟩
      have long : size ≤ (buffered ++ chunks.flatten).length := by
        rw [List.length_append]
        omega
      rw [slice, take_eq, open_]
      simp only [long, if_true]
      rw [List.drop_append, List.drop_of_length_le fits, exact_, Nat.sub_self]
      rfl
    · cases done

theorem settled_eq_none {buffered : List α} {chunks : List (List α)}
    (undecided : settled sep size buffered chunks = none) :
    sep ∉ buffered ∧ buffered.length < size := by
  unfold settled at undecided
  split at undecided
  · cases undecided
  rename_i open_
  split at undecided
  · cases undecided
  next room =>
    exact ⟨cutLine_eq_none.mp open_, by omega⟩

/-- How the source cuts its bytes makes no difference. -/
theorem readSlice_eq (sep : α) {buffered : List α} (chunks : List (List α))
    (fits : buffered.length ≤ size) :
    ((readSlice sep size buffered chunks).1, (readSlice sep size buffered chunks).2.pending) =
        slice sep size (buffered ++ chunks.flatten) ∧
      (readSlice sep size buffered chunks).2.buffered.length ≤ size := by
  induction chunks generalizing buffered with
  | nil =>
    rw [readSlice]
    cases done : settled sep size buffered [] with
    | some result => exact settled_eq fits done
    | none =>
      obtain ⟨open_, room⟩ := settled_eq_none done
      refine ⟨?_, by simp⟩
      have none_cut := cutLine_eq_none.mpr open_
      rw [List.flatten_nil, List.append_nil, slice, List.take_of_length_le fits, none_cut]
      simp [Nat.not_le.mpr room, Reader.pending]
  | cons chunk rest ih =>
    rw [readSlice]
    cases done : settled sep size buffered (chunk :: rest) with
    | some result => exact settled_eq fits done
    | none =>
      obtain ⟨-, room⟩ := settled_eq_none done
      dsimp only
      split
      next fitsToo =>
        have fitting : (buffered ++ chunk).length ≤ size := by
          rw [List.length_append]
          omega
        rw [List.flatten_cons, ← List.append_assoc]
        exact ih fitting
      next long =>
        have filled : (buffered ++ chunk.take (size - buffered.length)).length = size := by
          rw [List.length_append, List.length_take]
          omega
        have same : buffered ++ (chunk :: rest).flatten =
            (buffered ++ chunk.take (size - buffered.length)) ++
              (chunk.drop (size - buffered.length) :: rest).flatten := by
          rw [List.flatten_cons, List.flatten_cons, List.append_assoc, ← List.append_assoc
            (chunk.take _), List.take_append_drop]
        cases full : settled sep size (buffered ++ chunk.take (size - buffered.length))
            (chunk.drop (size - buffered.length) :: rest) with
        | some result =>
          rw [same]
          exact settled_eq (Nat.le_of_eq filled) full
        | none =>
          have short := (settled_eq_none full).2
          omega

end HelixKit.LineReader
