/-
Purpose: Files that are replaced by writing a temporary file and renaming it, where all writers of a
  name share the path of the temporary file.
Trusted boundary: a file is its inode's bytes, and renaming takes no time
-/
import Mathlib.Data.List.Nodup
import Mathlib.Logic.Function.Basic

namespace HelixKit.SharedTemp

variable {Key α : Type}

/-! ## The disk -/

/-- The inodes of the files and of the temporary files, by name, and what is in them. -/
structure Disk (Key α : Type) where
  files : Key → Option Nat := fun _ => none
  temps : Key → Option Nat := fun _ => none
  contents : Nat → List α := fun _ => []
  next : Nat := 0

def Disk.read (disk : Disk Key α) (key : Key) : Option (List α) :=
  (disk.files key).map disk.contents

/-- The temporary file is opened and emptied, or made. -/
def Disk.openTemp [DecidableEq Key] (disk : Disk Key α) (key : Key) : Nat × Disk Key α :=
  match disk.temps key with
  | some inode => (inode, { disk with contents := Function.update disk.contents inode [] })
  | none =>
    (disk.next, { disk with
      temps := Function.update disk.temps key (some disk.next)
      contents := Function.update disk.contents disk.next []
      next := disk.next + 1 })

/-- Bytes from a position on. A gap is filled. -/
def overwrite (gap : α) (content : List α) (position : Nat) (bytes : List α) : List α :=
  content.take position ++ List.replicate (position - content.length) gap ++ bytes ++
    content.drop (position + bytes.length)

def Disk.write (gap : α) (disk : Disk Key α) (inode position : Nat) (bytes : List α) :
    Disk Key α :=
  { disk with contents :=
      Function.update disk.contents inode (overwrite gap (disk.contents inode) position bytes) }

def Disk.rename [DecidableEq Key] (disk : Disk Key α) (key : Key) : Option (Disk Key α) :=
  (disk.temps key).map fun inode =>
    { disk with
      files := Function.update disk.files key (some inode)
      temps := Function.update disk.temps key none }

/-! ## Writers -/

/-- A writer with the temporary file open. -/
structure Writer (Key α : Type) where
  key : Key
  inode : Nat
  body : List α
  written : Nat := 0

structure Pool (Key α : Type) where
  disk : Disk Key α := {}
  writers : List (Writer Key α) := []

def Pool.start [DecidableEq Key] (pool : Pool Key α) (key : Key) (body : List α) : Pool Key α :=
  let opened := pool.disk.openTemp key
  { disk := opened.2, writers := pool.writers ++ [{ key, inode := opened.1, body }] }

/-- A writer writes up to `n` bytes more, or renames the file when all are written. -/
def Pool.advance [DecidableEq Key] (gap : α) (pool : Pool Key α) (i n : Nat) : Pool Key α :=
  match pool.writers[i]? with
  | none => pool
  | some writer =>
    if writer.written < writer.body.length then
      let bytes := (writer.body.drop writer.written).take n
      { disk := pool.disk.write gap writer.inode writer.written bytes
        writers := pool.writers.set i { writer with written := writer.written + bytes.length } }
    else
      { disk := (pool.disk.rename writer.key).getD pool.disk, writers := pool.writers.eraseIdx i }

/-- A writer stops where it is. -/
def Pool.abandon (pool : Pool Key α) (i : Nat) : Pool Key α :=
  { pool with writers := pool.writers.eraseIdx i }

/-! ## Writers that do not overlap -/

/-- A writer has the temporary file of its name to itself. -/
structure Writer.Owns (disk : Disk Key α) (writer : Writer Key α) : Prop where
  temp : disk.temps writer.key = some writer.inode
  content : disk.contents writer.inode = writer.body.take writer.written

structure Pool.Sound (pool : Pool Key α) : Prop where
  files_old : ∀ key inode, pool.disk.files key = some inode → inode < pool.disk.next
  temps_old : ∀ key inode, pool.disk.temps key = some inode → inode < pool.disk.next
  temps_apart : ∀ key inode other, pool.disk.temps key = some inode →
    pool.disk.files other ≠ some inode
  temps_inj : ∀ key other inode, pool.disk.temps key = some inode →
    pool.disk.temps other = some inode → key = other
  owns : ∀ writer ∈ pool.writers, writer.Owns pool.disk
  keys : (pool.writers.map Writer.key).Nodup

theorem sound_empty : Pool.Sound ({} : Pool Key α) where
  files_old _ _ found := by cases found
  temps_old _ _ found := by cases found
  temps_apart _ _ _ found := by cases found
  temps_inj _ _ _ found := by cases found
  owns _ inside := by cases inside
  keys := List.nodup_nil

variable {gap : α} {pool : Pool Key α}

variable {inode : Nat}

/-- What the files of other inodes hold does not change. -/
theorem read_update {disk : Disk Key α} {content : List α}
    (apart : ∀ key, disk.files key ≠ some inode) (key : Key) :
    ({ disk with contents := Function.update disk.contents inode content } : Disk Key α).read key =
      disk.read key := by
  unfold Disk.read
  cases found : disk.files key with
  | none => rfl
  | some other =>
    have different : other ≠ inode := by
      rintro rfl
      exact apart key found
    simp [Function.update_of_ne different]

variable {writer : Writer Key α}

/-- The inode of a writer is no other writer's. -/
theorem Pool.Sound.inode_ne (sound : pool.Sound)
    (member : writer ∈ pool.writers) {key : Key} (other : writer.key ≠ key)
    (temp : pool.disk.temps key = some inode) : writer.inode ≠ inode := by
  rintro rfl
  exact other (sound.temps_inj _ _ _ (sound.owns writer member).temp temp)

theorem Writer.Owns.update {disk : Disk Key α}
    {content : List α} (owns : writer.Owns disk) (other : writer.inode ≠ inode) :
    writer.Owns { disk with contents := Function.update disk.contents inode content } where
  temp := owns.temp
  content := by
    dsimp only
    rw [Function.update_of_ne other]
    exact owns.content

theorem abandon_spec (sound : pool.Sound) (i : Nat) : (pool.abandon i).Sound where
  files_old := sound.files_old
  temps_old := sound.temps_old
  temps_apart := sound.temps_apart
  temps_inj := sound.temps_inj
  owns writer inside := sound.owns writer (List.mem_of_mem_eraseIdx inside)
  keys := sound.keys.sublist ((List.eraseIdx_sublist _ i).map Writer.key)

/-- The writers at two places write two names. -/
theorem Pool.Sound.key_ne (sound : pool.Sound) {i j : Nat} {other : Writer Key α}
    (found : pool.writers[i]? = some writer) (there : pool.writers[j]? = some other)
    (apart : j ≠ i) : other.key ≠ writer.key := by
  intro same
  have inRange : j < (pool.writers.map Writer.key).length := by
    rw [List.length_map]
    exact (List.getElem?_eq_some_iff.mp there).1
  refine apart ((List.getElem?_inj inRange sound.keys).mp ?_)
  rw [List.getElem?_map, List.getElem?_map, found, there, Option.map_some, Option.map_some, same]

variable [DecidableEq Key]

/-- A writer starts on a name that no other writer writes. -/
theorem start_spec (sound : pool.Sound) {key : Key} (idle : key ∉ pool.writers.map Writer.key)
    (body : List α) :
    (pool.start key body).Sound ∧
      ∀ other, (pool.start key body).disk.read other = pool.disk.read other := by
  have others : ∀ writer ∈ pool.writers, writer.key ≠ key := fun writer member same =>
    idle (List.mem_map.mpr ⟨writer, member, same⟩)
  have keys : ∀ inode,
      ((pool.writers ++ [({ key, inode, body } : Writer Key α)]).map Writer.key).Nodup := by
    intro inode
    rw [List.map_append, List.map_singleton, List.nodup_append]
    refine ⟨sound.keys, List.nodup_singleton _, ?_⟩
    rintro other inside single new rfl
    rw [List.mem_singleton.mp new] at inside
    exact idle inside
  unfold Pool.start Disk.openTemp
  cases found : pool.disk.temps key with
  | some inode =>
    refine ⟨⟨sound.files_old, sound.temps_old, sound.temps_apart, sound.temps_inj, ?_,
      keys inode⟩, fun other =>
        read_update (fun name => sound.temps_apart key inode name found) other⟩
    intro writer inside
    rcases List.mem_append.mp inside with old | new
    · exact (sound.owns writer old).update (sound.inode_ne old (others writer old) found)
    · rw [List.mem_singleton.mp new]
      exact ⟨found, by simp⟩
  | none =>
    have fresh : ∀ name, pool.disk.files name ≠ some pool.disk.next := fun name same =>
      absurd (sound.files_old name _ same) (Nat.lt_irrefl _)
    have freshTemp : ∀ name, pool.disk.temps name ≠ some pool.disk.next := fun name same =>
      absurd (sound.temps_old name _ same) (Nat.lt_irrefl _)
    refine ⟨⟨?_, ?_, ?_, ?_, ?_, keys _⟩, fun other => read_update fresh other⟩
    · exact fun name inode same => Nat.lt_succ_of_lt (sound.files_old name inode same)
    · intro name inode same
      dsimp only at same ⊢
      by_cases here : name = key
      · subst here
        rw [Function.update_self] at same
        rw [← Option.some.inj same]
        exact Nat.lt_succ_self _
      · rw [Function.update_of_ne here] at same
        exact Nat.lt_succ_of_lt (sound.temps_old name inode same)
    · intro name inode other same
      dsimp only at same ⊢
      by_cases here : name = key
      · subst here
        rw [Function.update_self] at same
        rw [← Option.some.inj same]
        exact fresh other
      · rw [Function.update_of_ne here] at same
        exact sound.temps_apart name inode other same
    · intro name other inode same sameToo
      dsimp only at same sameToo
      by_cases here : name = key
      · subst here
        rw [Function.update_self] at same
        rw [← Option.some.inj same] at sameToo
        by_contra different
        rw [Function.update_of_ne (Ne.symm different)] at sameToo
        exact freshTemp other sameToo
      rw [Function.update_of_ne here] at same
      by_cases there : other = key
      · subst there
        rw [Function.update_self] at sameToo
        rw [← Option.some.inj sameToo] at same
        exact absurd same (freshTemp name)
      · rw [Function.update_of_ne there] at sameToo
        exact sound.temps_inj name other inode same sameToo
    · intro writer inside
      rcases List.mem_append.mp inside with old | new
      · have owns := sound.owns writer old
        have older : writer.inode ≠ pool.disk.next :=
          Nat.ne_of_lt (sound.temps_old _ _ owns.temp)
        refine ⟨?_, (owns.update older).content⟩
        dsimp only
        rw [Function.update_of_ne (others writer old)]
        exact owns.temp
      · rw [List.mem_singleton.mp new]
        exact ⟨by simp, by simp⟩

/-- Bytes that are written at the end. -/
theorem overwrite_end (gap : α) (content bytes : List α) :
    overwrite gap content content.length bytes = content ++ bytes := by
  simp [overwrite]

/-- A writer goes on: nothing that can be read changes, or its file is replaced by its body and it
is done. -/
theorem advance_spec (sound : pool.Sound) (i n : Nat) :
    (pool.advance gap i n).Sound ∧
      ((∀ key, (pool.advance gap i n).disk.read key = pool.disk.read key) ∨
        ∃ writer ∈ pool.writers, (pool.advance gap i n).disk.read writer.key = some writer.body ∧
          (∀ key ≠ writer.key, (pool.advance gap i n).disk.read key = pool.disk.read key) ∧
          ∀ other ∈ (pool.advance gap i n).writers, other.key ≠ writer.key) := by
  unfold Pool.advance
  cases found : pool.writers[i]? with
  | none => exact ⟨sound, .inl fun _ => rfl⟩
  | some writer =>
    have member : writer ∈ pool.writers := List.mem_of_getElem? found
    obtain ⟨temp, content⟩ := sound.owns writer member
    dsimp only
    split
    next more =>
      have position : writer.written = (pool.disk.contents writer.inode).length := by
        rw [content, List.length_take]
        omega
      have apart := sound.temps_apart writer.key writer.inode
      refine ⟨⟨sound.files_old, sound.temps_old, sound.temps_apart, sound.temps_inj, ?_, ?_⟩,
        .inl fun key => read_update (fun name => apart name temp) key⟩
      · intro other inside
        obtain ⟨j, there⟩ := List.mem_iff_getElem?.mp inside
        rw [List.getElem?_set] at there
        split at there
        · split at there
          · rw [← Option.some.inj there]
            refine ⟨temp, ?_⟩
            have ended := overwrite_end gap (pool.disk.contents writer.inode)
              ((writer.body.drop writer.written).take n)
            rw [← position] at ended
            dsimp only [Disk.write]
            rw [Function.update_self, ended, content, List.take_add, List.length_take]
            congr 1
            rw [List.take_eq_take_iff]
            omega
          · cases there
        next different =>
          have others := sound.key_ne found there (Ne.symm different)
          have owned := List.mem_of_getElem? there
          exact (sound.owns other owned).update (sound.inode_ne owned others temp)
      · have same : (pool.writers.map Writer.key).set i writer.key =
            pool.writers.map Writer.key := by
          obtain ⟨inRange, rfl⟩ := List.getElem?_eq_some_iff.mp found
          rw [← List.map_set, List.set_getElem_self]
        rw [List.map_set, same]
        exact sound.keys
    next done =>
      have whole : pool.disk.contents writer.inode = writer.body := by
        rw [content]
        exact List.take_of_length_le (Nat.not_lt.mp done)
      have renamed : pool.disk.rename writer.key = some { pool.disk with
          files := Function.update pool.disk.files writer.key (some writer.inode)
          temps := Function.update pool.disk.temps writer.key none } := by
        rw [Disk.rename, temp]
        rfl
      rw [renamed, Option.getD_some]
      have others : ∀ other ∈ pool.writers.eraseIdx i, other.key ≠ writer.key := by
        intro other inside
        obtain ⟨j, apart, there⟩ := List.mem_eraseIdx_iff_getElem?.mp inside
        exact sound.key_ne found there apart
      refine ⟨⟨?_, ?_, ?_, ?_, ?_, ?_⟩, .inr ⟨writer, member, ?_, ?_, others⟩⟩
      · intro key inode same
        dsimp only at same ⊢
        by_cases here : key = writer.key
        · subst here
          rw [Function.update_self] at same
          rw [← Option.some.inj same]
          exact sound.temps_old _ _ temp
        · rw [Function.update_of_ne here] at same
          exact sound.files_old key inode same
      · intro key inode same
        dsimp only at same ⊢
        by_cases here : key = writer.key
        · subst here
          rw [Function.update_self] at same
          cases same
        · rw [Function.update_of_ne here] at same
          exact sound.temps_old key inode same
      · intro key inode other same
        dsimp only at same ⊢
        by_cases here : key = writer.key
        · subst here
          rw [Function.update_self] at same
          cases same
        rw [Function.update_of_ne here] at same
        by_cases there : other = writer.key
        · subst there
          rw [Function.update_self]
          rintro equal
          rw [← Option.some.inj equal] at same
          exact here (sound.temps_inj _ _ _ same temp)
        · rw [Function.update_of_ne there]
          exact sound.temps_apart key inode other same
      · intro key other inode same sameToo
        dsimp only at same sameToo
        by_cases here : key = writer.key
        · subst here
          rw [Function.update_self] at same
          cases same
        rw [Function.update_of_ne here] at same
        by_cases there : other = writer.key
        · subst there
          rw [Function.update_self] at sameToo
          cases sameToo
        · rw [Function.update_of_ne there] at sameToo
          exact sound.temps_inj key other inode same sameToo
      · intro other inside
        obtain ⟨otherTemp, otherContent⟩ := sound.owns other (List.mem_of_mem_eraseIdx inside)
        refine ⟨?_, otherContent⟩
        dsimp only
        rw [Function.update_of_ne (others other inside)]
        exact otherTemp
      · exact sound.keys.sublist ((List.eraseIdx_sublist _ i).map Writer.key)
      · simp [Disk.read, whole]
      · intro key other
        simp [Disk.read, Function.update_of_ne other]

/-- A writer keeps its name and its body. -/
theorem advance_writers {i n : Nat} (member : writer ∈ (pool.advance gap i n).writers) :
    ∃ old ∈ pool.writers, old.key = writer.key ∧ old.body = writer.body := by
  unfold Pool.advance at member
  cases found : pool.writers[i]? with
  | none =>
    rw [found] at member
    exact ⟨writer, member, rfl, rfl⟩
  | some old =>
    rw [found] at member
    dsimp only at member
    split at member
    · rcases List.mem_or_eq_of_mem_set member with there | rfl
      · exact ⟨writer, there, rfl, rfl⟩
      · exact ⟨old, List.mem_of_getElem? found, rfl, rfl⟩
    · exact ⟨writer, List.mem_of_mem_eraseIdx member, rfl, rfl⟩

end HelixKit.SharedTemp
