/-
Purpose: Which ids the embedded store hands out over whole runs, whatever the
  flash does to the rows and whenever the device reboots.
Trusted boundary: none
Main exports: insert_fresh
-/
import HelixKit.Esp32.Db
import HelixKit.Lib.Runs

namespace HelixKit.Esp32.Db

open HelixKit.Runs

variable {Row : Type}

/-! ### Runs -/

/-- The database, with every id that was ever taken for a row of a table. -/
structure Store (Row : Type) where
  db : Kvdb Row
  rows : List (Key × UInt32)

/-- A formatted flash. -/
def Store.start : Store Row := { db := { kvs := fun _ => none, preDeleted := [] }, rows := [] }

inductive Op (Row : Type) where
  | insert (t : Table Row) (row : Row) (flash : Flash)
  | update (t : Table Row) (id : UInt32) (row : Row) (flash : Flash)
  | delete (t : Table Row) (id : UInt32) (flash : Flash)
  | select (t : Table Row) (accept : Row → Bool)
  | reboot (chosen : List Nat)

/-- A power failure inside a call is a write that stops, and then a reboot. -/
def step (s : Store Row) : Op Row → Store Row
  | .insert t row flash =>
    { db := (hdb_insert t row flash s.db).1
      rows := (t.name, nextId t flash s.db) :: s.rows }
  | .update t id row flash => { s with db := (hdb_update t id row flash s.db).1 }
  | .delete t id flash => { s with db := (hdb_delete t id flash s.db).1 }
  | .select _ _ => s
  | .reboot chosen => { s with db := s.db.recover chosen }

/-- The keys fit, a sequence that is there is read, its successor is written, and
it is not the last number. -/
def SequenceKept (s : Store Row) : Op Row → Prop
  | .insert t _ flash =>
    t.Fits ∧ (s.db.kvs (seq_key t) ≠ none → flash.seqRead = true) ∧ flash.seqWrite = .done ∧
      s.db.kvs (seq_key t) ≠ some (.seq 0xFFFFFFFF)
  | .update t _ _ _ | .delete t _ _ => t.Fits
  | .select _ _ | .reboot _ => True

/-- An insertion leaves every row as it is, and returns an id that no row of the
table has or had. -/
def InsertFresh (s : Store Row) : Op Row → Prop
  | .insert t row flash =>
    (∀ key old, s.db.kvs key = some (.row old) →
      (hdb_insert t row flash s.db).1.kvs key = some (.row old)) ∧
    ∀ id, (hdb_insert t row flash s.db).2 = some id → (t.name, id) ∉ s.rows
  | _ => True

/-- What the operation writes has the property. -/
def Writes (P : Key → Blob Row → Prop) (s : Store Row) : Op Row → Prop
  | .insert t row flash =>
    P (seq_key t) (.seq (nextId t flash s.db + 1)) ∧
      P (row_key t (nextId t flash s.db)) (.row (t.stamp_id (nextId t flash s.db) row))
  | .update t id row _ => P (row_key t id) (.row (t.stamp_id id row))
  | .delete .. | .select .. | .reboot _ => True

/-- What holds of every entry and of what is written keeps holding of every entry. -/
theorem all_step {P : Key → Blob Row → Prop} {s : Store Row} {op : Op Row}
    (all : s.db.All P) (writes : Writes P s op) : (step s op).db.All P := by
  cases op with
  | insert t row flash =>
    have advanced := all.set_blob writes.1 flash.seqWrite
    unfold step hdb_insert
    by_cases allocated : flash.allocated = true
    · simp only [allocated, if_true]
      exact advanced.set_blob writes.2 _
    · simp only [allocated]
      exact advanced
  | update t id row flash =>
    unfold step
    rcases hdb_update_cases t id row flash s.db with ⟨same, -⟩ | ⟨-, after, -⟩
    · simp only [same]
      exact all
    · simp only [after]
      exact all.set_blob writes _
  | delete t id flash =>
    unfold step
    rcases hdb_delete_cases t id flash s.db with ⟨same, -⟩ | ⟨-, after, -⟩
    · simp only [same]
      exact all
    · simp only [after]
      exact all.del _ _
  | select t accept => exact all
  | reboot chosen => exact all.recover chosen

/-! ### The invariant -/

/-- The key is that of a row that was written. -/
def RowKey (s : Store Row) (key : Key) : Prop :=
  ∃ t : Table Row, t.Fits ∧ ∃ id, key = row_key t id ∧ (t.name, id) ∈ s.rows

/-- The key is that of a sequence, and the entry holds one. -/
def SeqEntry (key : Key) (blob : Blob Row) : Prop :=
  ∃ t : Table Row, t.Fits ∧ key = seq_key t ∧ ∃ n, blob = .seq n

structure Inv (s : Store Row) : Prop where
  entries : ∀ {key blob}, s.db.kvs key = some blob → SeqEntry key blob ∨ RowKey s key
  marked : ∀ entry ∈ s.db.preDeleted, RowKey s entry.1
  below : ∀ {t : Table Row} {id : UInt32}, t.Fits → (t.name, id) ∈ s.rows →
    ∃ n, s.db.kvs (seq_key t) = some (.seq n) ∧ id < n

theorem inv_start : Inv (Store.start : Store Row) where
  entries := fun found => by cases found
  marked := fun _ member => by cases member
  below := fun _ member => by cases member

theorem RowKey.mono {s after : Store Row} {key : Key} (rowKey : RowKey s key)
    (grows : s.rows ⊆ after.rows) : RowKey after key := by
  obtain ⟨t, fits, id, same, member⟩ := rowKey
  exact ⟨t, fits, id, same, grows member⟩

variable {id : UInt32}

/-- A key of a row that fits is that of a row that was written only if this one was. -/
theorem RowKey.written {s : Store Row} {t : Table Row} (fits : t.Fits)
    (rowKey : RowKey s (row_key t id)) : (t.name, id) ∈ s.rows := by
  obtain ⟨u, other, j, same, member⟩ := rowKey
  obtain ⟨names, ids⟩ := row_key_inj fits other same
  rw [names, ids]
  exact member

theorem RowKey.ne_seq_key {s : Store Row} {t : Table Row} (fits : t.Fits) {key : Key}
    (rowKey : RowKey s key) : key ≠ seq_key t := by
  obtain ⟨u, other, id, same, -⟩ := rowKey
  rw [same]
  exact row_key_ne_seq_key other fits id

namespace Inv

variable {s : Store Row} {t : Table Row}

/-- An entry under the key of a row is that of a row that was written. -/
theorem written (inv : Inv s) (fits : t.Fits) {id : UInt32} {blob : Blob Row}
    (found : s.db.kvs (row_key t id) = some blob) : (t.name, id) ∈ s.rows := by
  rcases inv.entries found with ⟨u, other, same, -⟩ | rowKey
  · exact absurd same (row_key_ne_seq_key fits other id)
  · exact rowKey.written fits

/-- The entry of a sequence holds one. -/
theorem seq (inv : Inv s) (fits : t.Fits) {blob : Blob Row}
    (found : s.db.kvs (seq_key t) = some blob) : ∃ n, blob = .seq n := by
  rcases inv.entries found with ⟨-, -, -, holds⟩ | rowKey
  · exact holds
  · exact absurd rfl (rowKey.ne_seq_key fits)

/-- What is marked with the old entry under the key of a row. -/
theorem marked_preDelete (inv : Inv s) (fits : t.Fits)
    (member : (t.name, id) ∈ s.rows) : ∀ entry ∈ s.db.preDelete (row_key t id), RowKey s entry.1 := by
  intro entry found
  unfold Kvdb.preDelete at found
  split at found
  · rcases List.mem_cons.1 found with rfl | old
    · exact ⟨t, fits, id, rfl, member⟩
    · exact inv.marked entry old
  · exact inv.marked entry found

/-- A write under the key of a row, however it comes out. -/
theorem set_row (inv : Inv s) (fits : t.Fits) (member : (t.name, id) ∈ s.rows)
    (row : Row) (written : Written) :
    Inv { s with db := s.db.set_blob (row_key t id) (.row row) written } := by
  have own : RowKey s (row_key t id) := ⟨t, fits, id, rfl, member⟩
  have seqs : ∀ {kvs : Key → Option (Blob Row)} (blob : Option (Blob Row)) {u : Table Row},
      u.Fits → Function.update kvs (row_key t id) blob (seq_key u) = kvs (seq_key u) :=
    fun blob u other => Function.update_of_ne (row_key_ne_seq_key fits other id).symm _ _
  have changed : ∀ (blob : Option (Blob Row)) {key : Key} {found : Blob Row},
      Function.update s.db.kvs (row_key t id) blob key = some found →
        SeqEntry key found ∨ RowKey s key := by
    intro blob key found there
    by_cases here : key = row_key t id
    · subst here
      exact Or.inr own
    · rw [Function.update_of_ne here] at there
      exact inv.entries there
  cases written with
  | refused => exact inv
  | done =>
    refine ⟨changed _, inv.marked, ?_⟩
    intro u j other earlier
    simp only [Kvdb.set_blob, seqs _ other]
    exact inv.below other earlier
  | lost | unfinished =>
    refine ⟨changed _, inv.marked_preDelete fits member, ?_⟩
    intro u j other earlier
    simp only [Kvdb.set_blob, seqs _ other]
    exact inv.below other earlier

/-- A deletion, however it comes out. -/
theorem del_row (inv : Inv s) (fits : t.Fits) (member : (t.name, id) ∈ s.rows)
    (written : Written) : Inv { s with db := s.db.del (row_key t id) written } := by
  have seqs : ∀ {u : Table Row}, u.Fits →
      Function.update s.db.kvs (row_key t id) none (seq_key u) = s.db.kvs (seq_key u) :=
    fun other => Function.update_of_ne (row_key_ne_seq_key fits other id).symm _ _
  have entries : ∀ {key : Key} {blob : Blob Row},
      Function.update s.db.kvs (row_key t id) none key = some blob →
        SeqEntry key blob ∨ RowKey s key := by
    intro key blob there
    by_cases here : key = row_key t id
    · subst here
      simp at there
    · rw [Function.update_of_ne here] at there
      exact inv.entries there
  have below : ∀ {u : Table Row} {j : UInt32}, u.Fits → (u.name, j) ∈ s.rows →
      ∃ n, Function.update s.db.kvs (row_key t id) none (seq_key u) = some (.seq n) ∧ j < n := by
    intro u j other earlier
    rw [seqs other]
    exact inv.below other earlier
  cases written with
  | refused => exact inv
  | done | unfinished => exact ⟨entries, inv.marked, below⟩
  | lost => exact ⟨entries, inv.marked_preDelete fits member, below⟩

/-- The recovery brings back rows only. -/
theorem recover (inv : Inv s) (chosen : List Nat) : Inv { s with db := s.db.recover chosen } := by
  have rows : ∀ entry ∈ chosen.filterMap (s.db.preDeleted[·]?), RowKey s entry.1 := by
    intro entry member
    obtain ⟨i, -, found⟩ := List.mem_filterMap.1 member
    exact inv.marked entry (List.mem_of_getElem? found)
  -- what holds of the entries holds after each of them is put back
  have back : ∀ (restored : List (Key × Blob Row)) (kvs : Key → Option (Blob Row)),
      (∀ entry ∈ restored, RowKey s entry.1) →
      (∀ {key blob}, kvs key = some blob → SeqEntry key blob ∨ RowKey s key) →
      (∀ {u : Table Row} {j : UInt32}, u.Fits → (u.name, j) ∈ s.rows →
        ∃ n, kvs (seq_key u) = some (.seq n) ∧ j < n) →
      Inv { s with db := { s.db with kvs := Kvdb.putBack kvs restored } } := by
    intro restored
    induction restored with
    | nil => exact fun kvs _ entries below => ⟨entries, inv.marked, below⟩
    | cons entry rest ih =>
      intro kvs rows entries below
      have own := rows entry List.mem_cons_self
      refine ih (Function.update kvs entry.1 (some entry.2))
        (fun later member => rows later (List.mem_cons_of_mem _ member)) ?_ ?_
      · intro key blob there
        by_cases here : key = entry.1
        · subst here
          exact Or.inr own
        · rw [Function.update_of_ne here] at there
          exact entries there
      · intro u j other earlier
        rw [Function.update_of_ne (own.ne_seq_key other).symm]
        exact below other earlier
  exact back _ _ rows inv.entries inv.below

/-! ### Insertions -/

/-- A sequence that is kept is above every id of the table. -/
theorem nextId_above (inv : Inv s) (fits : t.Fits) {flash : Flash}
    (read : s.db.kvs (seq_key t) ≠ none → flash.seqRead = true)
    (member : (t.name, id) ∈ s.rows) : id < nextId t flash s.db := by
  obtain ⟨n, found, less⟩ := inv.below fits member
  have readable := read (by simp [found])
  simpa [nextId, Kvdb.get_blob, readable, found, seqOf] using less

/-- There is no entry under the key of the next row. -/
theorem nextId_free (inv : Inv s) (fits : t.Fits) {flash : Flash}
    (read : s.db.kvs (seq_key t) ≠ none → flash.seqRead = true) :
    s.db.kvs (row_key t (nextId t flash s.db)) = none := by
  cases found : s.db.kvs (row_key t (nextId t flash s.db)) with
  | none => rfl
  | some blob => exact absurd (inv.nextId_above fits read (inv.written fits found)) (UInt32.lt_irrefl _)

/-- The next id does not wrap. -/
theorem nextId_lt_succ (inv : Inv s) (fits : t.Fits) (flash : Flash)
    (unexhausted : s.db.kvs (seq_key t) ≠ some (.seq 0xFFFFFFFF)) :
    nextId t flash s.db < nextId t flash s.db + 1 := by
  have small : nextId t flash s.db ≠ 0xFFFFFFFF := by
    unfold nextId
    cases found : s.db.get_blob (seq_key t) flash.seqRead with
    | none => simp
    | some blob =>
      have there : s.db.kvs (seq_key t) = some blob := by
        unfold Kvdb.get_blob at found
        split at found
        · exact found
        · cases found
      obtain ⟨n, rfl⟩ := inv.seq fits there
      intro last
      simp only [Option.bind_some, seqOf] at last
      rw [last] at there
      exact unexhausted there
  rw [UInt32.lt_iff_toNat_lt]
  have bound := (nextId t flash s.db).toNat_lt
  have notLast : (nextId t flash s.db).toNat ≠ 4294967295 := fun last =>
    small (UInt32.toNat_inj.1 last)
  have plus : (nextId t flash s.db + 1).toNat = (nextId t flash s.db).toNat + 1 := by
    rw [UInt32.toNat_add]
    simp
    omega
  omega

/-- With the sequence advanced, and the next id counted among those of the table. -/
theorem withSeq (inv : Inv s) (fits : t.Fits) {flash : Flash}
    (read : s.db.kvs (seq_key t) ≠ none → flash.seqRead = true) (written : flash.seqWrite = .done)
    (unexhausted : s.db.kvs (seq_key t) ≠ some (.seq 0xFFFFFFFF)) :
    Inv { db := HelixKit.Esp32.Db.withSeq t flash s.db
          rows := (t.name, nextId t flash s.db) :: s.rows } := by
  have rowKeys : s.rows ⊆ (t.name, nextId t flash s.db) :: s.rows := List.subset_cons_self _ _
  unfold Db.withSeq Kvdb.set_blob
  rw [written]
  refine ⟨?_, fun entry member => (inv.marked entry member).mono rowKeys, ?_⟩
  · intro key blob there
    by_cases here : key = seq_key t
    · subst here
      simp only [Function.update_self] at there
      cases there
      exact Or.inl ⟨t, fits, rfl, _, rfl⟩
    · simp only [Function.update_of_ne here] at there
      exact (inv.entries there).imp_right fun rowKey => rowKey.mono rowKeys
  · intro u id other member
    by_cases same : seq_key u = seq_key t
    · have names := seq_key_inj other fits same
      refine ⟨nextId t flash s.db + 1, by simp [same], ?_⟩
      have advances := inv.nextId_lt_succ fits flash unexhausted
      rcases List.mem_cons.1 member with new | old
      · rw [(Prod.mk.inj new).2]
        exact advances
      · rw [names] at old
        exact UInt32.lt_trans (inv.nextId_above fits read old) advances
    · rcases List.mem_cons.1 member with new | old
      · have names := (Prod.mk.inj new).1
        exact absurd (by rw [seq_key_fits other, seq_key_fits fits, names]) same
      · simp only [Function.update_of_ne same]
        exact inv.below other old

/-- What a step under the condition keeps. -/
theorem step (inv : Inv s) {op : Op Row} (kept : SequenceKept s op) : Inv (Db.step s op) := by
  cases op with
  | insert t row flash =>
    obtain ⟨fits, read, written, unexhausted⟩ := kept
    have advanced := inv.withSeq fits read written unexhausted
    unfold Db.step hdb_insert
    by_cases allocated : flash.allocated = true
    · simp only [allocated, if_true]
      exact advanced.set_row fits List.mem_cons_self _ _
    · simp only [allocated]
      exact advanced
  | update t id row flash =>
    unfold Db.step
    rcases hdb_update_cases t id row flash s.db with ⟨same, -⟩ | ⟨⟨old, found⟩, after, -⟩
    · simp only [same]
      exact inv
    · simp only [after]
      exact inv.set_row kept (inv.written kept found) _ _
  | delete t id flash =>
    unfold Db.step
    rcases hdb_delete_cases t id flash s.db with ⟨same, -⟩ | ⟨⟨old, found⟩, after, -⟩
    · simp only [same]
      exact inv
    · simp only [after]
      exact inv.del_row kept (inv.written kept found) _
  | select t accept => exact inv
  | reboot chosen => exact inv.recover chosen

/-- What an insertion under the condition does. -/
theorem insertFresh (inv : Inv s) {op : Op Row} (kept : SequenceKept s op) : InsertFresh s op := by
  cases op with
  | insert t row flash =>
    obtain ⟨fits, read, -, -⟩ := kept
    constructor
    · intro key old found
      have notSeq : key ≠ seq_key t := by
        rintro rfl
        obtain ⟨n, holds⟩ := inv.seq fits found
        cases holds
      have notNext : key ≠ row_key t (nextId t flash s.db) := by
        rintro rfl
        rw [inv.nextId_free fits read] at found
        cases found
      have advanced : (Db.withSeq t flash s.db).kvs key = some (.row old) := by
        unfold Db.withSeq
        rw [Kvdb.set_blob_ne notSeq]
        exact found
      unfold hdb_insert
      by_cases allocated : flash.allocated = true
      · simp only [allocated, if_true]
        rw [Kvdb.set_blob_ne notNext]
        exact advanced
      · simp only [allocated]
        exact advanced
    · intro id returned
      have next : id = nextId t flash s.db := by
        unfold hdb_insert at returned
        split at returned
        · simp only at returned
          split at returned
          · exact (Option.some.inj returned).symm
          · cases returned
        · cases returned
      intro taken
      have less := inv.nextId_above fits read taken
      rw [next] at less
      exact UInt32.lt_irrefl _ less
  | update t id row flash | delete t id flash | select t accept | reboot chosen => trivial

end Inv

/-- In every run whose insertions find and write their sequences, no insertion
changes a row or returns an id that its table has used before. -/
theorem insert_fresh {ops : List (Op Row)} (kept : Along step SequenceKept Store.start ops) :
    Along step InsertFresh Store.start ops :=
  Along.always Inv (fun _ _ inv kept => inv.step kept) (fun _ _ inv kept => inv.insertFresh kept)
    inv_start kept

/-! ### A sequence that cannot be read -/

/-- A table of numbers. -/
def numbers : Table Nat := { name := ['n'], stamp_id := fun _ row => row }

/-- Two rows, a change that fails between the old row and the new one, and a reboot. -/
def twoNumbers : List (Op Nat) :=
  [.insert numbers 7 {}, .insert numbers 8 { rowWrite := .unfinished },
    .update numbers 1 9 { rowWrite := .lost }, .reboot [0]]

theorem insert_fresh_numbers : Along step InsertFresh Store.start twoNumbers := by
  apply insert_fresh
  have fits : numbers.Fits := by
    unfold Table.Fits
    decide
  refine ⟨⟨fits, fun _ => rfl, rfl, ?_⟩, ⟨fits, fun _ => rfl, rfl, ?_⟩, fits, trivial, trivial⟩
  · decide
  · decide

/-- The second insertion fails to read the sequence: it gives the id 1 again, and
writes over the row that has it. -/
theorem insert_overwrites :
    let db := (hdb_insert numbers 7 {} Store.start.db).1
    let (after, id) := hdb_insert numbers 8 { seqRead := false } db
    hdb_get numbers 1 true db = some 7 ∧ id = some 1 ∧ hdb_get numbers 1 true after = some 8 ∧
      ¬ InsertFresh (step Store.start (.insert numbers 7 {}))
        (.insert numbers 8 { seqRead := false }) := by
  refine ⟨by decide, by decide, by decide, ?_⟩
  rintro ⟨keeps, -⟩
  have old := keeps (row_key numbers 1) 7 (by decide)
  exact absurd old (by decide)

end HelixKit.Esp32.Db
