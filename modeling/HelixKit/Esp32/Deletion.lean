/-
Purpose: Deleting rows of a table in passes of 64, with deletions that may fail, and when the passes
  come to an end (`embedded/esp32/platform/src/helix_db.c`).
Trusted boundary: none
-/
import HelixKit.Esp32.Db
import HelixKit.Lib.Runs
import Mathlib.Data.Set.Card

namespace HelixKit.Esp32.Db

variable {Row : Type}

/-! ### Passes -/

/-- `strtoul` to the base 10, of a text that starts with digits. -/
def strtoul (text : List Char) : UInt32 :=
  UInt32.ofNat (min (Nat.ofDigitChars 10 (text.takeWhile Char.isDigit) 0) (2 ^ 32 - 1))

def key_row_id (t : Table Row) (key : Key) : Option UInt32 :=
  if isRowKey t key then some (strtoul (key.drop (t.name.length + 1))) else none

/-- One pass: in which order the iterator finds the entries, which can be read, and how each
deletion comes out. -/
structure Pass where
  order : List Key
  readable : Key → Bool := fun _ => true
  deletes : Nat → Flash := fun _ => {}

def batch : Nat := 64

/-- The ids that a pass over all entries would gather. -/
def matches_ (t : Table Row) (accept : Row → Bool) (pass : Pass) (db : Kvdb Row) : List UInt32 :=
  pass.order.filterMap fun key =>
    if ((db.get_blob key (pass.readable key)).bind (rowOf t)).any accept then key_row_id t key
    else none

def deleteEach (t : Table Row) (deletes : Nat → Flash) :
    Nat → List UInt32 → Kvdb Row → Kvdb Row × Nat
  | _, [], db => (db, 0)
  | i, id :: rest, db =>
    let (db, deleted) := hdb_delete t id (deletes i) db
    let (db, more) := deleteEach t deletes (i + 1) rest db
    (db, (if deleted then 1 else 0) + more)

/-- Returns how many rows were deleted, and whether the passes have come to an end. -/
def hdb_delete_where (t : Table Row) (accept : Row → Bool) :
    List Pass → Kvdb Row → Kvdb Row × Nat × Bool
  | [], db => (db, 0, false)
  | pass :: rest, db =>
    let ids := (matches_ t accept pass db).take batch
    let (db, deleted) := deleteEach t pass.deletes 0 ids db
    if ids.length = batch then
      let (db, more, ended) := hdb_delete_where t accept rest db
      (db, deleted + more, ended)
    else (db, deleted, true)

/-! ### What a pass finds -/

/-- The iterator finds every entry once, and it can be read. -/
structure Kvdb.Scanned (db : Kvdb Row) (order : List Key) (readable : Key → Bool) : Prop where
  nodup : order.Nodup
  found : ∀ key, key ∈ order ↔ db.kvs key ≠ none
  read : ∀ key, readable key = true

/-- The keys of the rows that are accepted. -/
def matching (t : Table Row) (accept : Row → Bool) (db : Kvdb Row) : Set Key :=
  {key | isRowKey t key = true ∧
    ∃ row, (db.kvs key).bind (rowOf t) = some row ∧ accept row = true}

/-- Rows are under the keys of ids. -/
def Keyed (t : Table Row) (db : Kvdb Row) : Prop :=
  ∀ key row, isRowKey t key = true → (db.kvs key).bind (rowOf t) = some row →
    ∃ id, key = row_key t id

section Table

variable {t : Table Row} (accept : Row → Bool) {db : Kvdb Row}

theorem strtoul_digits (id : UInt32) : strtoul (Nat.toDigits 10 id.toNat) = id := by
  have digits : (Nat.toDigits 10 id.toNat).takeWhile Char.isDigit = Nat.toDigits 10 id.toNat := by
    have all : ∀ c ∈ Nat.toDigits 10 id.toNat, Char.isDigit c = true := fun c member =>
      Nat.isDigit_of_mem_toDigits (by decide) (by decide) member
    have split : (Nat.toDigits 10 id.toNat ++ []).takeWhile Char.isDigit =
        Nat.toDigits 10 id.toNat ++ [].takeWhile Char.isDigit :=
      List.takeWhile_append_of_pos all
    rwa [List.append_nil, List.takeWhile_nil, List.append_nil] at split
  have small := id.toNat_lt
  have kept : min id.toNat (2 ^ 32 - 1) = id.toNat := by omega
  rw [strtoul, digits, Nat.ofDigitChars_ten_toDigits, kept, UInt32.ofNat_toNat]

theorem key_row_id_row_key (fits : t.Fits) (id : UInt32) :
    key_row_id t (row_key t id) = some id := by
  have whole := row_key_fits fits id
  have cut : (row_key t id).drop (t.name.length + 1) = Nat.toDigits 10 id.toNat := by
    rw [whole, ← List.drop_drop, List.drop_left]
    rfl
  rw [key_row_id, if_pos (isRowKey_row_key id whole), cut, strtoul_digits]

/-- An id is gathered if its key is that of a row that matches. -/
theorem mem_matches {pass : Pass} (fits : t.Fits) (keyed : Keyed t db)
    (scanned : db.Scanned pass.order pass.readable) (key : Key) (id : UInt32) :
    id ∈ (if ((db.get_blob key (pass.readable key)).bind (rowOf t)).any accept then
        key_row_id t key else none) ↔
      key = row_key t id ∧ key ∈ matching t accept db := by
  have read : db.get_blob key (pass.readable key) = db.kvs key := by
    rw [Kvdb.get_blob, scanned.read key, if_pos rfl]
  rw [read]
  constructor
  · intro member
    split at member
    next holds =>
      cases found : (db.kvs key).bind (rowOf t) with
      | none =>
        rw [found] at holds
        cases holds
      | some row =>
        rw [found] at holds
        have isRow : isRowKey t key = true := by
          unfold key_row_id at member
          split at member
          next isRow => exact isRow
          next => cases member
        obtain ⟨own, rfl⟩ := keyed key row isRow found
        rw [key_row_id_row_key fits] at member
        cases member
        exact ⟨rfl, isRow, row, found, holds⟩
    next => cases member
  · rintro ⟨rfl, -, row, found, accepted⟩
    rw [found, Option.any_some, if_pos accepted, key_row_id_row_key fits]
    rfl

/-- The ids of a pass over all entries are those of the rows that match, each once. -/
theorem matches_spec {pass : Pass} (fits : t.Fits) (keyed : Keyed t db)
    (scanned : db.Scanned pass.order pass.readable) :
    (matches_ t accept pass db).Nodup ∧
      (∀ id, id ∈ matches_ t accept pass db ↔ row_key t id ∈ matching t accept db) ∧
      (matches_ t accept pass db).length = (matching t accept db).ncard := by
  have gathered := fun key id => mem_matches accept fits keyed scanned key id
  have nodup : (matches_ t accept pass db).Nodup := by
    refine scanned.nodup.filterMap fun key other id first second => ?_
    rw [((gathered key id).mp first).1, ((gathered other id).mp second).1]
  have member : ∀ id, id ∈ matches_ t accept pass db ↔ row_key t id ∈ matching t accept db := by
    intro id
    rw [matches_, List.mem_filterMap]
    constructor
    · rintro ⟨key, -, same⟩
      obtain ⟨rfl, holds⟩ := (gathered key id).mp same
      exact holds
    · intro holds
      refine ⟨row_key t id, (scanned.found _).mpr ?_, (gathered _ id).mpr ⟨rfl, holds⟩⟩
      obtain ⟨-, row, found, -⟩ := holds
      intro gone
      rw [gone] at found
      cases found
  refine ⟨nodup, member, ?_⟩
  have keys : matching t accept db =
      ((matches_ t accept pass db).map (row_key t)).toFinset := by
    ext key
    rw [List.coe_toFinset, Set.mem_ofPred_eq, List.mem_map]
    constructor
    · intro holds
      obtain ⟨isRow, row, found, -⟩ := id holds
      obtain ⟨own, rfl⟩ := keyed key row isRow found
      exact ⟨own, (member own).mpr holds, rfl⟩
    · rintro ⟨own, inside, rfl⟩
      exact (member own).mp inside
  have apart : ((matches_ t accept pass db).map (row_key t)).Nodup :=
    nodup.map_on fun _ _ _ _ same => (row_key_inj fits fits same).2
  rw [keys, Set.ncard_coe_finset, List.toFinset_card_of_nodup apart, List.length_map]

theorem matching_finite {order : List Key} {readable : Key → Bool}
    (scanned : db.Scanned order readable) : (matching t accept db).Finite := by
  refine (List.finite_toSet order).subset fun key holds => (scanned.found key).mpr ?_
  obtain ⟨-, row, found, -⟩ := holds
  intro gone
  rw [gone] at found
  cases found

variable {accept : Row → Bool}

/-! ### One deletion -/

/-- The deletion finds the entry and gets it out of sight. -/
def Flash.deletes (flash : Flash) : Bool := flash.rowRead && decide (flash.rowWrite ≠ .refused)

theorem kvs_hdb_delete (id : UInt32) (flash : Flash)
    (there : db.kvs (row_key t id) ≠ none) :
    (hdb_delete t id flash db).1.kvs =
      if flash.deletes then Function.update db.kvs (row_key t id) none else db.kvs := by
  obtain ⟨blob, found⟩ := Option.ne_none_iff_exists'.mp there
  unfold hdb_delete Flash.deletes Kvdb.get_blob
  cases flash.rowRead with
  | false => simp
  | true =>
    simp only [if_true, found]
    cases flash.rowWrite <;> rfl

/-- A deletion that fails changes nothing. -/
theorem hdb_delete_fails (id : UInt32) {flash : Flash} (fails : flash.deletes = false) :
    (hdb_delete t id flash db).1 = db := by
  unfold Flash.deletes at fails
  unfold hdb_delete
  cases found : db.get_blob (row_key t id) flash.rowRead with
  | none => rfl
  | some blob =>
    have read : flash.rowRead = true := by
      unfold Kvdb.get_blob at found
      split at found
      next read => exact read
      next => cases found
    rw [read, Bool.true_and, decide_eq_false_iff_not, not_not] at fails
    rw [fails]
    rfl

theorem matching_hdb_delete {id : UInt32} (flash : Flash)
    (member : row_key t id ∈ matching t accept db) :
    matching t accept (hdb_delete t id flash db).1 =
      if flash.deletes then matching t accept db \ {row_key t id} else matching t accept db := by
  have there : db.kvs (row_key t id) ≠ none := by
    obtain ⟨-, row, found, -⟩ := member
    intro gone
    rw [gone] at found
    cases found
  ext key
  rw [matching, Set.mem_ofPred_eq, kvs_hdb_delete id flash there]
  cases flash.deletes with
  | false => rfl
  | true =>
    simp only [if_true, Set.mem_sdiff, Set.mem_singleton_iff]
    by_cases same : key = row_key t id
    · simp [same]
    · rw [Function.update_of_ne same]
      exact (and_iff_left same).symm

theorem Keyed.hdb_delete (keyed : Keyed t db) {id : UInt32} (flash : Flash)
    (member : row_key t id ∈ matching t accept db) : Keyed t (hdb_delete t id flash db).1 := by
  have there : db.kvs (row_key t id) ≠ none := by
    obtain ⟨-, row, found, -⟩ := member
    intro gone
    rw [gone] at found
    cases found
  intro key row isRow found
  rw [kvs_hdb_delete id flash there] at found
  split at found
  · by_cases same : key = row_key t id
    · rw [same, Function.update_self] at found
      cases found
    · rw [Function.update_of_ne same] at found
      exact keyed key row isRow found
  · exact keyed key row isRow found

/-- A deletion takes one row away if it succeeds. -/
theorem ncard_hdb_delete {id : UInt32} (flash : Flash) (finite : (matching t accept db).Finite)
    (member : row_key t id ∈ matching t accept db) :
    (matching t accept (hdb_delete t id flash db).1).ncard + (if flash.deletes then 1 else 0) =
      (matching t accept db).ncard := by
  rw [matching_hdb_delete flash member]
  cases flash.deletes with
  | false => rfl
  | true =>
    have positive := Set.ncard_pos finite |>.mpr ⟨_, member⟩
    simp only [if_true, Set.ncard_sdiff_singleton_of_mem member]
    omega

/-! ### A pass -/

/-- How many of `count` deletions from the `i`-th on succeed. -/
def successes (deletes : Nat → Flash) (i count : Nat) : Nat :=
  ((List.range' i count).map fun j => if (deletes j).deletes then 1 else 0).sum

/-- The deletions of a pass take away one row for each that succeeds. -/
theorem deleteEach_spec (fits : t.Fits) (deletes : Nat → Flash) {ids : List UInt32} (i : Nat)
    (keyed : Keyed t db) (finite : (matching t accept db).Finite) (nodup : ids.Nodup)
    (members : ∀ id ∈ ids, row_key t id ∈ matching t accept db) :
    Keyed t (deleteEach t deletes i ids db).1 ∧
      (matching t accept (deleteEach t deletes i ids db).1).Finite ∧
      (matching t accept (deleteEach t deletes i ids db).1).ncard +
        successes deletes i ids.length = (matching t accept db).ncard := by
  induction ids generalizing db i with
  | nil => exact ⟨keyed, finite, rfl⟩
  | cons id rest ih =>
    obtain ⟨fresh, nodup⟩ := List.nodup_cons.mp nodup
    have member := members id List.mem_cons_self
    have after := matching_hdb_delete (deletes i) member
    have one := ncard_hdb_delete (deletes i) finite member
    have kept := keyed.hdb_delete (deletes i) member
    have still : (matching t accept (hdb_delete t id (deletes i) db).1).Finite := by
      rw [after]
      split
      · exact finite.subset Set.sdiff_subset
      · exact finite
    have others : ∀ other ∈ rest,
        row_key t other ∈ matching t accept (hdb_delete t id (deletes i) db).1 := by
      intro other inside
      have held := members other (List.mem_cons_of_mem id inside)
      have apart : row_key t other ≠ row_key t id := by
        intro same
        exact fresh ((row_key_inj fits fits same).2 ▸ inside)
      rw [after]
      split
      · exact ⟨held, apart⟩
      · exact held
    obtain ⟨keyed, finite, rest_⟩ := ih (i + 1) kept still nodup others
    refine ⟨keyed, finite, ?_⟩
    have total : successes deletes i (id :: rest).length =
        (if (deletes i).deletes then 1 else 0) + successes deletes (i + 1) rest.length := by
      rw [successes, List.length_cons, List.range'_succ, List.map_cons, List.sum_cons]
      rfl
    rw [total, ← one, ← rest_]
    show (matching t accept (deleteEach t deletes (i + 1) rest
      (hdb_delete t id (deletes i) db).1).1).ncard + _ = _
    omega

end Table

/-! ### All passes -/

theorem hdb_delete_where_append (t : Table Row) (accept : Row → Bool) (passes : List Pass)
    (pass : Pass) (db : Kvdb Row) :
    (hdb_delete_where t accept (passes ++ [pass]) db).1 =
        (if (hdb_delete_where t accept passes db).2.2 then
          (hdb_delete_where t accept passes db).1
        else
          (hdb_delete_where t accept [pass] (hdb_delete_where t accept passes db).1).1) ∧
      (hdb_delete_where t accept (passes ++ [pass]) db).2.2 =
        ((hdb_delete_where t accept passes db).2.2 ||
          (hdb_delete_where t accept [pass] (hdb_delete_where t accept passes db).1).2.2) := by
  induction passes generalizing db with
  | nil => exact ⟨rfl, rfl⟩
  | cons first rest ih =>
    simp only [List.cons_append, hdb_delete_where]
    split
    · exact ih _
    · exact ⟨rfl, rfl⟩

theorem hdb_delete_where_single (t : Table Row) (accept : Row → Bool) (pass : Pass)
    (db : Kvdb Row) :
    (hdb_delete_where t accept [pass] db).1 =
        (deleteEach t pass.deletes 0 ((matches_ t accept pass db).take batch) db).1 ∧
      (hdb_delete_where t accept [pass] db).2.2 =
        decide (((matches_ t accept pass db).take batch).length ≠ batch) := by
  by_cases whole : ((matches_ t accept pass db).take batch).length = batch
  · rw [decide_eq_false (not_not_intro whole)]
    simp only [hdb_delete_where, if_pos whole, and_self]
  · rw [decide_eq_true whole]
    simp only [hdb_delete_where, if_neg whole, and_self]

/-- A call of `hdb_delete_where`, with all the passes that there can be: the iterator finds each
entry once, and only deletions fail. -/
structure Deletion (t : Table Row) (accept : Row → Bool) where
  fits : t.Fits
  db : Kvdb Row
  keyed : Keyed t db
  passes : Nat → Pass
  scanned : ∀ i, (hdb_delete_where t accept ((List.range i).map passes) db).2.2 = false →
    (hdb_delete_where t accept ((List.range i).map passes) db).1.Scanned
      (passes i).order (passes i).readable

namespace Deletion

variable {t : Table Row} {accept : Row → Bool} (d : Deletion t accept)

/-- The call after `i` passes. -/
def after (i : Nat) : Kvdb Row × Nat × Bool :=
  hdb_delete_where t accept ((List.range i).map d.passes) d.db

def Ended (i : Nat) : Prop := (d.after i).2.2 = true

/-- How many deletions of a pass succeed, if the pass finds as many as it gathers at most. -/
def taken (i : Nat) : Nat := successes (d.passes i).deletes 0 batch

theorem after_succ (i : Nat) :
    (d.after (i + 1)).1 = (if (d.after i).2.2 then (d.after i).1
      else (hdb_delete_where t accept [d.passes i] (d.after i).1).1) ∧
    (d.after (i + 1)).2.2 =
      ((d.after i).2.2 || (hdb_delete_where t accept [d.passes i] (d.after i).1).2.2) := by
  have more : (List.range (i + 1)).map d.passes = (List.range i).map d.passes ++ [d.passes i] := by
    rw [List.range_succ, List.map_append, List.map_singleton]
  unfold after
  rw [more]
  exact hdb_delete_where_append t accept _ _ d.db

/-- What one more pass does. -/
theorem round {i : Nat} (running : ¬ d.Ended i) (keyed : Keyed t (d.after i).1) :
    (d.Ended (i + 1) ↔ (matching t accept (d.after i).1).ncard < batch) ∧
      (¬ d.Ended (i + 1) → (matching t accept (d.after (i + 1)).1).ncard + d.taken i =
        (matching t accept (d.after i).1).ncard) ∧
      Keyed t (d.after (i + 1)).1 := by
  have going : (d.after i).2.2 = false := Bool.not_eq_true _ ▸ running
  obtain ⟨db, ended⟩ := d.after_succ i
  rw [going, if_neg Bool.false_ne_true] at db
  rw [going, Bool.false_or] at ended
  have scanned : (d.after i).1.Scanned (d.passes i).order (d.passes i).readable := d.scanned i going
  obtain ⟨nodup, member, length⟩ := matches_spec accept d.fits keyed scanned
  obtain ⟨once, last⟩ := hdb_delete_where_single t accept (d.passes i) (d.after i).1
  obtain ⟨kept, -, fewer⟩ := deleteEach_spec d.fits (d.passes i).deletes 0 keyed
    (matching_finite accept scanned)
    (nodup.sublist (List.take_sublist batch _)) fun id inside =>
      (member id).mp (List.mem_of_mem_take inside)
  rw [once] at db
  have gathered : ((matches_ t accept (d.passes i) (d.after i).1).take batch).length =
      min batch (matching t accept (d.after i).1).ncard := by
    rw [List.length_take, length]
  refine ⟨?_, fun goesOn => ?_, db ▸ kept⟩
  · rw [Ended, ended, last, decide_eq_true_iff, gathered]
    omega
  · have whole : ((matches_ t accept (d.passes i) (d.after i).1).take batch).length = batch := by
      by_contra short
      exact goesOn (ended.trans (last.trans (decide_eq_true short)))
    rw [whole] at fewer
    rw [db]
    exact fewer

/-- The call comes to an end exactly when the deletions that succeed leave too few rows for a
whole pass. -/
theorem ends_iff :
    (∃ i, d.Ended i) ↔
      ∃ i, (matching t accept d.db).ncard - ((List.range i).map d.taken).sum < batch := by
  have keyed : ∀ i, ¬ d.Ended i → Keyed t (d.after i).1 := by
    intro i
    induction i with
    | zero => exact fun _ => d.keyed
    | succ i ih =>
      intro running
      have before : ¬ d.Ended i := by
        intro ended
        apply running
        rw [Ended, (d.after_succ i).2, ended, Bool.true_or]
      exact (d.round before (ih before)).2.2
  exact Runs.drains_iff (fun i => (matching t accept (d.after i).1).ncard) d.taken (· < batch)
    Bool.false_ne_true (fun i running => (d.round running (keyed i running)).1)
    (fun i running => (d.round running (keyed i running)).2.1)

end Deletion

end HelixKit.Esp32.Db
