/-
Purpose: The embedded table store: rows and one sequence per table in a
  key-value database on flash, every read and write of which can fail.
Trusted boundary: none
-/
import HelixKit.Lib.Separator
import Mathlib.Data.List.Sort
import Mathlib.Logic.Function.Basic

namespace HelixKit.Esp32.Db

open HelixKit.Separator

/-! ### The key-value database -/

/-- A key: a C string, one `Char` a byte. -/
abbrev Key := List Char

/-- What an entry holds: the next id of a table, or a row. -/
inductive Blob (Row : Type) where
  | seq (next : UInt32)
  | row (row : Row)
deriving Repr, DecidableEq

/-- The entries that a lookup finds, and those marked to be deleted by writes that
did not finish: the recovery at boot can bring these back. -/
structure Kvdb (Row : Type) where
  kvs : Key → Option (Blob Row)
  preDeleted : List (Key × Blob Row)

/-- How a write comes out: refused before it touches the flash, stopped between the
old entry and the new one, stopped with the new entry written and the old one still
marked, or done. -/
inductive Written where
  | done
  | refused
  | lost
  | unfinished
deriving Repr, DecidableEq

variable {Row : Type}

namespace Kvdb

/-- The old entry under the key is marked. -/
def preDelete (db : Kvdb Row) (key : Key) : List (Key × Blob Row) :=
  match db.kvs key with
  | some old => (key, old) :: db.preDeleted
  | none => db.preDeleted

/-- `fdb_kv_set_blob`; it returns `FDB_NO_ERR` only when the write is done. -/
def set_blob (db : Kvdb Row) (key : Key) (blob : Blob Row) : Written → Kvdb Row
  | .done => { db with kvs := Function.update db.kvs key (some blob) }
  | .refused => db
  | .lost => { kvs := Function.update db.kvs key none, preDeleted := db.preDelete key }
  | .unfinished =>
    { kvs := Function.update db.kvs key (some blob), preDeleted := db.preDelete key }

/-- `fdb_kv_get_blob`, when the flash can be read. -/
def get_blob (db : Kvdb Row) (key : Key) (readable : Bool) : Option (Blob Row) :=
  if readable then db.kvs key else none

/-- `fdb_kv_del`. -/
def del (db : Kvdb Row) (key : Key) : Written → Kvdb Row
  | .done | .unfinished => { db with kvs := Function.update db.kvs key none }
  | .lost => { kvs := Function.update db.kvs key none, preDeleted := db.preDelete key }
  | .refused => db

/-- The entries with these written again. -/
def putBack (kvs : Key → Option (Blob Row)) : List (Key × Blob Row) → Key → Option (Blob Row)
  | [] => kvs
  | entry :: rest => putBack (Function.update kvs entry.1 (some entry.2)) rest

/-- The recovery at boot brings back some of the marked entries. -/
def recover (db : Kvdb Row) (chosen : List Nat) : Kvdb Row :=
  { db with kvs := putBack db.kvs (chosen.filterMap (db.preDeleted[·]?)) }

theorem get_blob_some {db : Kvdb Row} {key : Key} {readable : Bool} {blob : Blob Row}
    (found : db.get_blob key readable = some blob) : db.kvs key = some blob := by
  unfold get_blob at found
  split at found
  · exact found
  · cases found

/-- A write leaves the other keys alone. -/
theorem set_blob_ne {db : Kvdb Row} {key other : Key} {blob : Blob Row} {written : Written}
    (different : other ≠ key) : (db.set_blob key blob written).kvs other = db.kvs other := by
  cases written with
  | refused => rfl
  | done | lost | unfinished => exact Function.update_of_ne different _ _

theorem del_ne {db : Kvdb Row} {key other : Key} {written : Written} (different : other ≠ key) :
    (db.del key written).kvs other = db.kvs other := by
  cases written with
  | refused => rfl
  | done | lost | unfinished => exact Function.update_of_ne different _ _

/-- What holds of every entry, the marked ones included. -/
structure All (P : Key → Blob Row → Prop) (db : Kvdb Row) : Prop where
  live : ∀ {key blob}, db.kvs key = some blob → P key blob
  marked : ∀ entry ∈ db.preDeleted, P entry.1 entry.2

namespace All

variable {P Q : Key → Blob Row → Prop} {db : Kvdb Row}

theorem mono (all : All P db) (implies : ∀ key blob, P key blob → Q key blob) : All Q db :=
  ⟨fun found => implies _ _ (all.live found), fun entry member => implies _ _ (all.marked entry member)⟩

theorem preDelete (all : All P db) (key : Key) : ∀ entry ∈ db.preDelete key, P entry.1 entry.2 := by
  intro entry member
  unfold Kvdb.preDelete at member
  split at member
  · next old found =>
    rcases List.mem_cons.1 member with rfl | earlier
    · exact all.live found
    · exact all.marked entry earlier
  · exact all.marked entry member

theorem set_blob (all : All P db) {key : Key} {blob : Blob Row} (new : P key blob)
    (written : Written) : All P (db.set_blob key blob written) := by
  have changed : ∀ {value : Option (Blob Row)} {other : Key} {found : Blob Row},
      (∀ holds, value = some holds → P key holds) →
      Function.update db.kvs key value other = some found → P other found := by
    intro value other found holds there
    by_cases here : other = key
    · subst here
      exact holds found (by simpa using there)
    · rw [Function.update_of_ne here] at there
      exact all.live there
  have newly : ∀ holds, some blob = some holds → P key holds := by
    rintro _ ⟨⟩
    exact new
  cases written with
  | refused => exact all
  | done => exact ⟨changed newly, all.marked⟩
  | lost => exact ⟨changed (fun _ gone => by cases gone), all.preDelete key⟩
  | unfinished => exact ⟨changed newly, all.preDelete key⟩

theorem del (all : All P db) (key : Key) (written : Written) : All P (db.del key written) := by
  have fewer : ∀ {other : Key} {found : Blob Row},
      Function.update db.kvs key none other = some found → P other found := by
    intro other found there
    by_cases here : other = key
    · subst here
      simp at there
    · rw [Function.update_of_ne here] at there
      exact all.live there
  cases written with
  | refused => exact all
  | done | unfinished => exact ⟨fewer, all.marked⟩
  | lost => exact ⟨fewer, all.preDelete key⟩

theorem putBack (all : All P db) {restored : List (Key × Blob Row)}
    (rows : ∀ entry ∈ restored, P entry.1 entry.2) :
    All P { db with kvs := Kvdb.putBack db.kvs restored } := by
  induction restored generalizing db with
  | nil => exact all
  | cons entry rest ih =>
    have first := all.set_blob (rows entry List.mem_cons_self) .done
    exact ih first fun later member => rows later (List.mem_cons_of_mem _ member)

theorem recover (all : All P db) (chosen : List Nat) : All P (db.recover chosen) := by
  apply all.putBack
  intro entry member
  obtain ⟨i, -, found⟩ := List.mem_filterMap.1 member
  exact all.marked entry (List.mem_of_getElem? found)

end All

end Kvdb

/-! ### Tables -/

def keyMax : Nat := 64

/-- `hdb_table_t`: the name, how a row is stamped with its id, and what an entry
reads as when it is read as the sequence or as a row of the table. -/
structure Table (Row : Type) where
  name : Key
  stamp_id : UInt32 → Row → Row
  /-- The first four bytes of a row, if it has as many. -/
  asSeq : Row → Option UInt32 := fun _ => none
  /-- The four bytes of a sequence as a row, if rows have four bytes. -/
  asRow : UInt32 → Option Row := fun _ => none

def row_key (t : Table Row) (id : UInt32) : Key :=
  (t.name ++ '#' :: Nat.toDigits 10 id.toNat).take (keyMax - 1)

def seq_key (t : Table Row) : Key :=
  (t.name ++ [':', 's', 'e', 'q']).take (keyMax - 1)

def seqOf (t : Table Row) : Blob Row → Option UInt32
  | .seq next => some next
  | .row row => t.asSeq row

def rowOf (t : Table Row) : Blob Row → Option Row
  | .seq next => t.asRow next
  | .row row => some row

/-- How the reads, the writes and the allocation of one call come out. -/
structure Flash where
  seqRead : Bool := true
  seqWrite : Written := .done
  allocated : Bool := true
  rowRead : Bool := true
  rowWrite : Written := .done
deriving Repr, DecidableEq

/-- The id that the next row gets. -/
def nextId (t : Table Row) (flash : Flash) (db : Kvdb Row) : UInt32 :=
  match (db.get_blob (seq_key t) flash.seqRead).bind (seqOf t) with
  | some seq => seq
  | none => 1

/-- The database with the sequence of the table advanced. -/
def withSeq (t : Table Row) (flash : Flash) (db : Kvdb Row) : Kvdb Row :=
  db.set_blob (seq_key t) (.seq (nextId t flash db + 1)) flash.seqWrite

/-- Returns the id if the row is written. -/
def hdb_insert (t : Table Row) (row : Row) (flash : Flash) (db : Kvdb Row) :
    Kvdb Row × Option UInt32 :=
  let id := nextId t flash db
  let db := withSeq t flash db
  if flash.allocated then
    (db.set_blob (row_key t id) (.row (t.stamp_id id row)) flash.rowWrite,
      if flash.rowWrite = .done then some id else none)
  else
    (db, none)

def hdb_get (t : Table Row) (id : UInt32) (readable : Bool) (db : Kvdb Row) : Option Row :=
  (db.get_blob (row_key t id) readable).bind (rowOf t)

/-- Returns whether the row is found and written. -/
def hdb_update (t : Table Row) (id : UInt32) (row : Row) (flash : Flash) (db : Kvdb Row) :
    Kvdb Row × Bool :=
  match db.get_blob (row_key t id) flash.rowRead with
  | none => (db, false)
  | some _ =>
    if flash.allocated then
      (db.set_blob (row_key t id) (.row (t.stamp_id id row)) flash.rowWrite,
        flash.rowWrite = .done)
    else
      (db, false)

def hdb_delete (t : Table Row) (id : UInt32) (flash : Flash) (db : Kvdb Row) : Kvdb Row × Bool :=
  match db.get_blob (row_key t id) flash.rowRead with
  | none => (db, false)
  | some _ => (db.del (row_key t id) flash.rowWrite, flash.rowWrite = .done)

/-- An update leaves the database, or it finds the row and writes it. -/
theorem hdb_update_cases (t : Table Row) (id : UInt32) (row : Row) (flash : Flash) (db : Kvdb Row) :
    ((hdb_update t id row flash db).1 = db ∧ (hdb_update t id row flash db).2 = false) ∨
      (∃ old, db.kvs (row_key t id) = some old) ∧
        (hdb_update t id row flash db).1 =
          db.set_blob (row_key t id) (.row (t.stamp_id id row)) flash.rowWrite ∧
        (hdb_update t id row flash db).2 = (flash.rowWrite = .done : Bool) := by
  unfold hdb_update
  cases found : db.get_blob (row_key t id) flash.rowRead with
  | none => exact Or.inl ⟨rfl, rfl⟩
  | some old =>
    by_cases allocated : flash.allocated = true
    · simp only [allocated, if_true]
      exact Or.inr ⟨⟨old, Kvdb.get_blob_some found⟩, trivial, trivial⟩
    · simp only [allocated]
      exact Or.inl ⟨rfl, rfl⟩

variable {t : Table Row}

variable {row : Row}

theorem hdb_update_ne {id : UInt32} {flash : Flash} {db : Kvdb Row}
    {key : Key} (different : key ≠ row_key t id) :
    (hdb_update t id row flash db).1.kvs key = db.kvs key := by
  rcases hdb_update_cases t id row flash db with ⟨same, -⟩ | ⟨-, after, -⟩
  · rw [same]
  · rw [after, Kvdb.set_blob_ne different]

/-- A deletion leaves the database, or it finds the row and deletes it. -/
theorem hdb_delete_cases (t : Table Row) (id : UInt32) (flash : Flash) (db : Kvdb Row) :
    ((hdb_delete t id flash db).1 = db ∧ (hdb_delete t id flash db).2 = false) ∨
      (∃ old, db.kvs (row_key t id) = some old) ∧
        (hdb_delete t id flash db).1 = db.del (row_key t id) flash.rowWrite ∧
        (hdb_delete t id flash db).2 = (flash.rowWrite = .done : Bool) := by
  unfold hdb_delete
  cases found : db.get_blob (row_key t id) flash.rowRead with
  | none => exact Or.inl ⟨rfl, rfl⟩
  | some old => exact Or.inr ⟨⟨old, Kvdb.get_blob_some found⟩, rfl, rfl⟩

/-- Is the key that of a row of the table? -/
def isRowKey (t : Table Row) (key : Key) : Bool := (t.name ++ ['#']).isPrefixOf key

/-- One pass over the entries, in the order that the iterator finds them, `scan`;
it stops at `max_rows` matches. -/
def scanRows (t : Table Row) (accept : Row → Bool) (scan : List Key) (readable : Key → Bool)
    (db : Kvdb Row) : List Row :=
  scan.filterMap fun key =>
    if isRowKey t key then
      ((db.get_blob key (readable key)).bind (rowOf t)).filter accept
    else
      none

/-- The order is applied to the rows that the pass has found, and then the offset
and the limit; a limit of 0 is none. -/
def hdb_select (t : Table Row) (accept : Row → Bool) (ordered : Row → Row → Bool)
    (limit offset max_rows : Nat) (scan : List Key) (readable : Key → Bool) (db : Kvdb Row) :
    List Row :=
  let found := (scanRows t accept scan readable db).take max_rows
  let rows := (found.insertionSort fun a b => ordered a b).drop offset
  if limit > 0 then rows.take limit else rows

def hdb_count (t : Table Row) (accept : Row → Bool) (scan : List Key) (readable : Key → Bool)
    (db : Kvdb Row) : Nat :=
  (scanRows t accept scan readable db).length

variable {readable : Key → Bool}

/-- A selected row is in the database, under a key of the table. -/
theorem mem_hdb_select {accept : Row → Bool} {ordered : Row → Row → Bool}
    {limit offset max_rows : Nat} {scan : List Key} {db : Kvdb Row}
    (member : row ∈ hdb_select t accept ordered limit offset max_rows scan readable db) :
    ∃ key blob, isRowKey t key = true ∧ db.kvs key = some blob ∧ rowOf t blob = some row ∧
      accept row = true := by
  have sorted : row ∈ ((scanRows t accept scan readable db).take max_rows).insertionSort
      (fun a b => ordered a b) := by
    unfold hdb_select at member
    simp only at member
    split at member
    · exact List.mem_of_mem_drop (List.mem_of_mem_take member)
    · exact List.mem_of_mem_drop member
  have scanned := List.mem_of_mem_take ((List.mem_insertionSort _).1 sorted)
  obtain ⟨key, -, found⟩ := List.mem_filterMap.1 scanned
  split at found
  · next isRow =>
    obtain ⟨read, accepted⟩ := Option.filter_eq_some_iff.1 found
    obtain ⟨blob, got, holds⟩ := Option.bind_eq_some_iff.1 read
    exact ⟨key, blob, isRow, Kvdb.get_blob_some got, holds, accepted⟩
  · cases found

/-- A pass that is not cut off finds every match. -/
theorem mem_hdb_select_of_all {accept : Row → Bool} {ordered : Row → Row → Bool}
    {limit max_rows : Nat} {scan : List Key} {db : Kvdb Row}
    (all : (scanRows t accept scan readable db).length ≤ max_rows) (unlimited : max_rows ≤ limit)
    (member : row ∈ scanRows t accept scan readable db) :
    row ∈ hdb_select t accept ordered limit 0 max_rows scan readable db := by
  have found : (scanRows t accept scan readable db).take max_rows =
      scanRows t accept scan readable db := List.take_of_length_le all
  have sorted : row ∈ ((scanRows t accept scan readable db).insertionSort fun a b => ordered a b) :=
    (List.mem_insertionSort _).2 member
  unfold hdb_select
  simp only [found, List.drop_zero]
  split
  · rw [List.take_of_length_le]
    · exact sorted
    · simp only [List.length_insertionSort]
      omega
  · exact sorted

/-- An entry that the pass reaches and can read. -/
theorem mem_scanRows {accept : Row → Bool} {scan : List Key}
    {db : Kvdb Row} {key : Key} (reached : key ∈ scan) (isRow : isRowKey t key = true)
    (read : readable key = true) (found : db.kvs key = some (.row row)) (accepted : accept row = true) :
    row ∈ scanRows t accept scan readable db := by
  unfold scanRows
  rw [List.mem_filterMap]
  refine ⟨key, reached, ?_⟩
  simp [isRow, read, Kvdb.get_blob, found, rowOf, accepted, Option.filter]

/-! ### Keys -/

theorem isRowKey_row_key (id : UInt32)
    (fits : row_key t id = t.name ++ '#' :: Nat.toDigits 10 id.toNat) :
    isRowKey t (row_key t id) = true := by
  unfold isRowKey
  rw [fits]
  simp

variable {u : Table Row}

theorem row_key_name (same : t.name = u.name) (id : UInt32) :
    row_key t id = row_key u id := by
  unfold row_key
  rw [same]

/-- Every key of the table fits its buffer. -/
def Table.Fits (t : Table Row) : Prop := t.name.length + 11 < keyMax

theorem toDigits_length (id : UInt32) : (Nat.toDigits 10 id.toNat).length ≤ 10 := by
  rw [Nat.length_toDigits_le_iff (by decide) (by decide)]
  have small := id.toNat_lt
  omega

theorem row_key_fits (fits : t.Fits) (id : UInt32) :
    row_key t id = t.name ++ '#' :: Nat.toDigits 10 id.toNat := by
  have digits := toDigits_length id
  unfold Table.Fits keyMax at fits
  apply List.take_of_length_le
  simp only [List.length_append, List.length_cons, keyMax]
  omega

theorem seq_key_fits (fits : t.Fits) :
    seq_key t = t.name ++ [':', 's', 'e', 'q'] := by
  unfold Table.Fits keyMax at fits
  apply List.take_of_length_le
  simp only [List.length_append, List.length_cons, List.length_nil, keyMax]
  omega

/-- The digits after a '#' can be cut from the end. -/
theorem append_digits_inj {name other : Key} {id j : Nat}
    (same : name ++ '#' :: Nat.toDigits 10 id = other ++ '#' :: Nat.toDigits 10 j) :
    name = other ∧ id = j := by
  have noHash : ∀ n, '#' ∉ (Nat.toDigits 10 n).reverse := by
    intro n member
    exact notMem_toDigits (by decide) n (List.mem_reverse.1 member)
  have reversed := congrArg List.reverse same
  simp only [List.reverse_append, List.reverse_cons, List.append_assoc, List.singleton_append]
    at reversed
  obtain ⟨digits, names⟩ := append_sep_inj (noHash id) (noHash j) reversed
  exact ⟨List.reverse_injective names, toDigits_inj (List.reverse_injective digits)⟩

/-- Rows have different keys. -/
theorem row_key_inj (fits : t.Fits) (other : u.Fits) {id j : UInt32}
    (same : row_key t id = row_key u j) : t.name = u.name ∧ id = j := by
  rw [row_key_fits fits, row_key_fits other] at same
  obtain ⟨names, ids⟩ := append_digits_inj same
  exact ⟨names, UInt32.toNat_inj.1 ids⟩

theorem seq_key_inj (fits : t.Fits) (other : u.Fits)
    (same : seq_key t = seq_key u) : t.name = u.name := by
  rw [seq_key_fits fits, seq_key_fits other] at same
  exact List.append_cancel_right same

/-- The key of a row ends with a digit, that of a sequence does not. -/
theorem row_key_ne_seq_key (fits : t.Fits) (other : u.Fits) (id : UInt32) :
    row_key t id ≠ seq_key u := by
  rw [row_key_fits fits, seq_key_fits other]
  intro same
  have last := congrArg List.getLast? same
  have digits : Nat.toDigits 10 id.toNat ≠ [] := Nat.toDigits_ne_nil
  rw [List.getLast?_append_cons, List.getLast?_append_cons, List.getLast?_cons_of_ne_nil digits] at last
  have member := List.mem_of_getLast? last
  have digit := Nat.isDigit_of_mem_toDigits (by decide) (by decide) member
  exact absurd digit (by decide)

end HelixKit.Esp32.Db
