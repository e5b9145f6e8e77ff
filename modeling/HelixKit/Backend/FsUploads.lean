/-
Purpose: Concurrent uploads to one object of the filesystem storage: each writes a temporary
  file beside the object and renames it.
Trusted boundary: none
Main exports: uploads_sound
-/
import HelixKit.Lib.Runs
import Mathlib.Logic.Function.Basic

namespace HelixKit.Backend.FsUploads

open HelixKit.Runs

abbrev Bytes : Type := List UInt8

/-! ## The disk -/

/-- The names of the object: its own, `.tmp-upload`, and `.tmp-` with the digits of a random
suffix. -/
inductive Name where
  | object
  | tmpUpload
  | tmp (suffix : Bytes)
deriving Repr, DecidableEq

inductive Inode where
  | initial (name : Name)
  | created (number : Nat)
deriving Repr, DecidableEq

structure Disk where
  names : Name → Option Inode
  contents : Inode → Bytes
  created : Nat := 0

/-- A disk with these files, none of which has two names. -/
def Disk.of (files : Name → Option Bytes) : Disk where
  names name := (files name).map fun _ => .initial name
  contents
    | .initial name => (files name).getD []
    | .created _ => []

def Disk.read (d : Disk) (name : Name) : Option Bytes := (d.names name).map d.contents

/-- `open(name, 'w')`: a file that is there is truncated. -/
def Disk.openFile (d : Disk) (name : Name) : Disk × Inode :=
  match d.names name with
  | some inode => ({ d with contents := Function.update d.contents inode [] }, inode)
  | none =>
    let inode := Inode.created d.created
    ({ names := Function.update d.names name (some inode)
       contents := Function.update d.contents inode []
       created := d.created + 1 }, inode)

/-- A write past the end leaves zeros before it. -/
def writeAt (content : Bytes) (position : Nat) (data : Bytes) : Bytes :=
  content.take position ++ List.replicate (position - content.length) 0 ++ data ++
    content.drop (position + data.length)

def Disk.write (d : Disk) (inode : Inode) (position : Nat) (data : Bytes) : Disk :=
  { d with contents := Function.update d.contents inode (writeAt (d.contents inode) position data) }

/-- `rename`, which needs the old name. -/
def Disk.rename (d : Disk) (old new : Name) : Option Disk :=
  match d.names old with
  | none => none
  | some inode =>
    some { d with names := Function.update (Function.update d.names new (some inode)) old none }

/-! ## Uploads -/

/-- How far an upload has come. `opened` has the file it writes and the bytes it has written. -/
inductive Stage where
  | receiving
  | ready
  | opened (inode : Inode) (written : Nat)
  | completed
  | failed
deriving Repr, DecidableEq

structure Upload where
  body : Bytes := []
  tmp : Name
  stage : Stage
deriving Repr, DecidableEq

/-- `earlier` is the object before the uploads, `completed` the bodies of those that have reported
success. -/
structure Storage where
  disk : Disk
  uploads : List Upload := []
  earlier : Option Bytes
  completed : List Bytes := []

def start (files : Name → Option Bytes) : Storage :=
  { disk := .of files, earlier := files .object }

def maxUploadMib : Nat := 64
def bytesPerKib : Nat := 1024
def maxUploadBytes : Nat := maxUploadMib * bytesPerKib * bytesPerKib

inductive Op where
  /-- An authorized PUT. -/
  | put
  /-- `FilesystemStorageProvider.upload` -/
  | upload (suffix data : Bytes)
  | data (u : Nat) (chunk : Bytes)
  | bodyEnds (u : Nat)
  | abort (u : Nat)
  | openFile (u : Nat) (ok : Bool)
  | write (u n : Nat)
  | writeFails (u : Nat)
  | rename (u : Nat) (ok : Bool)
deriving Repr, DecidableEq

def Storage.setUpload (s : Storage) (u : Nat) (upload : Upload) : Storage :=
  { s with uploads := s.uploads.set u upload }

def Storage.setStage (s : Storage) (u : Nat) (upload : Upload) (stage : Stage) : Storage :=
  s.setUpload u { upload with stage }

/-- The steps of an upload, by its stage. A step that cannot be taken changes nothing. -/
def Storage.advance (s : Storage) (u : Nat) (upload : Upload) (op : Op) : Storage :=
  match upload.stage, op with
  | .receiving, .data _ chunk =>
    let body := upload.body ++ chunk
    if maxUploadBytes < body.length then s.setStage u upload .failed
    else s.setUpload u { upload with body }
  | .receiving, .bodyEnds _ => s.setStage u upload .ready
  | .receiving, .abort _ => s.setStage u upload .failed
  | .ready, .openFile _ ok =>
    if ok then
      let (disk, inode) := s.disk.openFile upload.tmp
      { s with disk }.setStage u upload (.opened inode 0)
    else s.setStage u upload .failed
  | .opened inode written, .write _ n =>
    let data := (upload.body.drop written).take n
    { s with disk := s.disk.write inode written data }.setStage u upload
      (.opened inode (written + data.length))
  | .opened _ _, .writeFails _ => s.setStage u upload .failed
  | .opened _ written, .rename _ ok =>
    if written < upload.body.length then s
    else
      match s.disk.rename upload.tmp .object, ok with
      | some disk, true =>
        { s with disk, completed := s.completed ++ [upload.body] }.setStage u upload .completed
      | _, _ => s.setStage u upload .failed
  | _, _ => s

def step (s : Storage) (op : Op) : Storage :=
  match op with
  | .put => { s with uploads := s.uploads ++ [{ tmp := .tmpUpload, stage := .receiving }] }
  | .upload suffix data =>
    { s with uploads := s.uploads ++ [{ body := data, tmp := .tmp suffix, stage := .ready }] }
  | .data u _ | .bodyEnds u | .abort u | .openFile u _ | .write u _ | .writeFails u | .rename u _ =>
    match s.uploads[u]? with
    | none => s
    | some upload => s.advance u upload op

/-! ## The object -/

def Storage.stored (s : Storage) : Option Bytes := s.disk.read .object

/-- The object is the body of the upload that has completed last, and what it was while none
has. -/
def Sound (s : Storage) : Prop :=
  s.stored = (s.completed.getLast?).or s.earlier

instance (s : Storage) : Decidable (Sound s) :=
  inferInstanceAs (Decidable (s.stored = (s.completed.getLast?).or s.earlier))

def Upload.isOpen (upload : Upload) : Bool :=
  match upload.stage with
  | .opened _ _ => true
  | _ => false

def Upload.Opened (upload : Upload) (inode : Inode) (written : Nat) : Prop :=
  upload.stage = .opened inode written

/-- An upload opens a temporary file that no other one has opened and not renamed yet. -/
def Alone (s : Storage) : Op → Prop
  | .openFile u true => ∀ upload ∈ s.uploads[u]?, upload.stage = .ready →
      ∀ other ∈ s.uploads, other.isOpen = true → other.tmp ≠ upload.tmp
  | _ => True

instance (s : Storage) (op : Op) : Decidable (Alone s op) := by
  unfold Alone
  split <;> infer_instance

/-- Each upload that has opened its file is alone with it and has written what it says. -/
structure Inv (s : Storage) : Prop where
  linked : ∀ a b inode, s.disk.names a = some inode → s.disk.names b = some inode → a = b
  fresh : ∀ name number, s.disk.names name = some (.created number) → number < s.disk.created
  tmp : ∀ upload ∈ s.uploads, upload.tmp ≠ .object
  active : ∀ upload ∈ s.uploads, ∀ inode written, upload.Opened inode written →
    s.disk.names upload.tmp = some inode ∧ s.disk.contents inode = upload.body.take written ∧
      written ≤ upload.body.length
  apart : ∀ (u v : Nat) (upload other : Upload), s.uploads[u]? = some upload →
    s.uploads[v]? = some other → ∀ inode written at_ done, upload.Opened inode written →
    other.Opened at_ done → upload.tmp = other.tmp → u = v
  sound : Sound s

theorem Inv.start (files : Name → Option Bytes) : Inv (start files) where
  linked := by
    intro a b inode first second
    simp only [FsUploads.start, Disk.of, Option.map_eq_some_iff] at first second
    obtain ⟨_, -, rfl⟩ := first
    obtain ⟨_, -, same⟩ := second
    exact (Inode.initial.inj same).symm
  fresh := by
    intro name number found
    simp [FsUploads.start, Disk.of] at found
  tmp := by simp [FsUploads.start]
  active := by simp [FsUploads.start]
  apart := by simp [FsUploads.start]
  sound := by
    simp only [Sound, Storage.stored, Disk.read, FsUploads.start, Disk.of, List.getLast?_nil,
      Option.none_or, Option.map_map]
    cases object : files .object with
    | none => rfl
    | some body => simp [object]

/-! ## What a step keeps -/

variable {s : Storage}

/-- An upload is added or changed that has no file open. -/
theorem Inv.quiet (inv : Inv s) {uploads : List Upload}
    (kept : ∀ (v : Nat) (other : Upload) (inode : Inode) (written : Nat), uploads[v]? = some other →
      other.Opened inode written → s.uploads[v]? = some other)
    (tmp : ∀ upload ∈ uploads, upload.tmp ≠ .object) : Inv { s with uploads } where
  linked := inv.linked
  fresh := inv.fresh
  tmp := tmp
  active := by
    intro upload member inode written opened
    obtain ⟨v, found⟩ := List.mem_iff_getElem?.mp member
    exact inv.active upload (List.mem_of_getElem? (kept v upload inode written found opened)) inode
      written opened
  apart := by
    intro u v upload other found next inode written at_ done opened also
    exact inv.apart u v upload other (kept u upload inode written found opened)
      (kept v other at_ done next also) inode written at_ done opened also
  sound := inv.sound

theorem Inv.connect (inv : Inv s) {upload : Upload} (tmp : upload.tmp ≠ .object)
    (closed : ∀ inode written, ¬upload.Opened inode written) :
    Inv { s with uploads := s.uploads ++ [upload] } := by
  apply inv.quiet
  · intro v other inode written found opened
    rcases Nat.lt_or_ge v s.uploads.length with old | new
    · rwa [List.getElem?_append_left old] at found
    · rw [List.getElem?_append_right new] at found
      rw [List.mem_singleton.mp (List.mem_of_getElem? found)] at opened
      exact absurd opened (closed inode written)
  · intro other member
    rcases List.mem_append.mp member with old | new
    · exact inv.tmp other old
    · rwa [List.mem_singleton.mp new]

theorem Inv.setUpload (inv : Inv s) (u : Nat) {upload : Upload}
    (tmp : upload.tmp ≠ .object) (closed : ∀ inode written, ¬upload.Opened inode written) :
    Inv (s.setUpload u upload) := by
  apply inv.quiet
  · intro v other inode written found opened
    rw [List.getElem?_set] at found
    split at found
    · split at found
      · cases found
        exact absurd opened (closed inode written)
      · cases found
    · exact found
  · intro other member
    rcases List.mem_or_eq_of_mem_set member with old | rfl
    · exact inv.tmp other old
    · exact tmp

theorem writeAt_take {body : Bytes} {written : Nat} (within : written ≤ body.length) (n : Nat) :
    writeAt (body.take written) written ((body.drop written).take n) =
      body.take (written + ((body.drop written).take n).length) := by
  have size : (body.take written).length = written := List.length_take_of_le within
  have short : ((body.drop written).take n) =
      (body.drop written).take ((body.drop written).take n).length := by
    rw [List.length_take, ← List.take_take, List.take_length]
  have past : (body.take written).drop (written + ((body.drop written).take n).length) = [] :=
    List.drop_eq_nil_of_le (by omega)
  rw [List.take_add, ← short, writeAt, past, List.take_take, Nat.min_self, size, Nat.sub_self,
    List.replicate_zero, List.append_nil, List.append_nil]

variable {inode : Inode}

/-- The file that an upload has open is no other file. -/
theorem Inv.contents_update (inv : Inv s) {name other : Name} {at_ : Inode}
    (here : s.disk.names name = some inode) (there : s.disk.names other = some at_)
    (different : other ≠ name) (content : Bytes) :
    Function.update s.disk.contents inode content at_ = s.disk.contents at_ := by
  apply Function.update_of_ne
  rintro rfl
  exact different (inv.linked other name at_ there here)

/-- The content of a temporary file does not show in the object. -/
theorem Inv.stored_update (inv : Inv s) {name : Name}
    (here : s.disk.names name = some inode) (tmp : name ≠ .object) (content : Bytes) :
    Disk.read { s.disk with contents := Function.update s.disk.contents inode content } .object =
      s.stored := by
  simp only [Storage.stored, Disk.read]
  cases object : s.disk.names .object with
  | none => rfl
  | some at_ =>
    simp only [Option.map_some, Option.some.injEq]
    exact inv.contents_update here object tmp.symm content

/-- The file of an upload is changed, and so is what the upload has written. -/
theorem Inv.write {s : Storage} (inv : Inv s) {u : Nat} {upload : Upload} {inode : Inode}
    (found : s.uploads[u]? = some upload) (here : s.disk.names upload.tmp = some inode)
    (alone : ∀ (v : Nat) (other : Upload) (at_ : Inode) (done : Nat), s.uploads[v]? = some other →
      other.Opened at_ done → other.tmp = upload.tmp → v = u)
    {written : Nat} (within : written ≤ upload.body.length) :
    Inv ({ s with disk := { s.disk with
      contents := Function.update s.disk.contents inode (upload.body.take written) } }.setStage u
        upload (.opened inode written)) := by
  have tmp := inv.tmp upload (List.mem_of_getElem? found)
  have bound := (List.getElem?_eq_some_iff.mp found).1
  -- An upload that has a file open is the one that has changed, or had it open with another name.
  have split (v : Nat) (other : Upload)
      (seen : (s.uploads.set u { upload with stage := .opened inode written })[v]? = some other) :
      v = u ∧ other = { upload with stage := .opened inode written } ∨
        v ≠ u ∧ s.uploads[v]? = some other := by
    by_cases same : u = v
    · subst same
      rw [List.getElem?_set_self bound, Option.some.injEq] at seen
      exact .inl ⟨rfl, seen.symm⟩
    · rw [List.getElem?_set_ne same] at seen
      exact .inr ⟨Ne.symm same, seen⟩
  refine ⟨inv.linked, inv.fresh, ?_, ?_, ?_, ?_⟩
  · intro other member
    rcases List.mem_or_eq_of_mem_set member with old | rfl
    · exact inv.tmp other old
    · exact tmp
  · intro other member at_ done opened
    obtain ⟨v, seen⟩ := List.mem_iff_getElem?.mp member
    rcases split v other seen with ⟨-, rfl⟩ | ⟨different, before⟩
    · obtain ⟨rfl, rfl⟩ := Stage.opened.inj opened
      exact ⟨here, Function.update_self .., within⟩
    · obtain ⟨there, content, limit⟩ :=
        inv.active other (List.mem_of_getElem? before) at_ done opened
      have apart : other.tmp ≠ upload.tmp := fun same =>
        different (alone v other at_ done before opened same)
      refine ⟨there, ?_, limit⟩
      rw [← content]
      exact inv.contents_update here there apart _
  · intro v w first second seen also at_ done at' done' opened openedToo same
    rcases split v first seen with ⟨rfl, rfl⟩ | ⟨different, before⟩
    · rcases split w second also with ⟨rfl, -⟩ | ⟨-, before⟩
      · rfl
      · exact (alone w second at' done' before openedToo same.symm).symm
    · rcases split w second also with ⟨rfl, rfl⟩ | ⟨-, before'⟩
      · exact alone v first at_ done before opened same
      · exact inv.apart v w first second before before' at_ done at' done' opened openedToo same
  · exact (inv.stored_update here tmp _).trans inv.sound

/-- A new file for the name. -/
theorem Inv.create (inv : Inv s) {name : Name} (absent : s.disk.names name = none)
    (tmp : name ≠ .object) :
    Inv { s with disk := { s.disk with
      names := Function.update s.disk.names name (some (.created s.disk.created))
      created := s.disk.created + 1 } } := by
  have old {other : Name} {inode : Inode}
      (found : Function.update s.disk.names name (some (.created s.disk.created)) other =
        some inode) :
      other = name ∧ inode = .created s.disk.created ∨ s.disk.names other = some inode := by
    by_cases same : other = name
    · subst same
      rw [Function.update_self, Option.some.injEq] at found
      exact .inl ⟨rfl, found.symm⟩
    · rw [Function.update_of_ne same] at found
      exact .inr found
  refine ⟨?_, ?_, inv.tmp, ?_, inv.apart, ?_⟩
  · intro a b inode first second
    rcases old first with ⟨rfl, rfl⟩ | before
    · rcases old second with ⟨rfl, -⟩ | before
      · rfl
      · exact absurd (inv.fresh b _ before) (Nat.lt_irrefl _)
    · rcases old second with ⟨rfl, rfl⟩ | before'
      · exact absurd (inv.fresh a _ before) (Nat.lt_irrefl _)
      · exact inv.linked a b inode before before'
  · intro other number found
    rcases old found with ⟨-, same⟩ | before
    · rw [Inode.created.inj same]
      exact Nat.lt_succ_self _
    · exact Nat.lt_succ_of_lt (inv.fresh other number before)
  · intro upload member inode written opened
    obtain ⟨here, rest⟩ := inv.active upload member inode written opened
    have different : upload.tmp ≠ name := by
      rintro rfl
      rw [absent] at here
      cases here
    exact ⟨(Function.update_of_ne different ..).trans here, rest⟩
  · have same : Function.update s.disk.names name (some (.created s.disk.created)) .object =
        s.disk.names .object := Function.update_of_ne tmp.symm ..
    have sound := inv.sound
    simp only [Sound, Storage.stored, Disk.read, same] at sound ⊢
    exact sound

theorem Inv.openFile (inv : Inv s) {u : Nat} {upload : Upload} (found : s.uploads[u]? = some upload)
    (alone : ∀ other ∈ s.uploads, ∀ inode written, other.Opened inode written →
      other.tmp ≠ upload.tmp) :
    Inv ({ s with disk := (s.disk.openFile upload.tmp).1 }.setStage u upload
      (.opened (s.disk.openFile upload.tmp).2 0)) := by
  have alone (v : Nat) (other : Upload) (at_ : Inode) (done : Nat)
      (seen : s.uploads[v]? = some other) (opened : other.Opened at_ done)
      (same : other.tmp = upload.tmp) : v = u :=
    absurd same (alone other (List.mem_of_getElem? seen) at_ done opened)
  unfold Disk.openFile
  split
  next inode here =>
    exact inv.write found here alone (Nat.zero_le _)
  next absent =>
    have created := inv.create absent (inv.tmp upload (List.mem_of_getElem? found))
    exact created.write found (Function.update_self ..) alone (Nat.zero_le _)

/-- The file of an upload that has written it becomes the object. -/
theorem Inv.rename (inv : Inv s) {u : Nat} {upload : Upload}
    {written : Nat} (found : s.uploads[u]? = some upload) (opened : upload.Opened inode written)
    (whole : upload.body.length ≤ written) {disk : Disk}
    (renamed : s.disk.rename upload.tmp .object = some disk) :
    Inv ({ s with disk, completed := s.completed ++ [upload.body] }.setStage u upload
      .completed) := by
  have member := List.mem_of_getElem? found
  have tmp := inv.tmp upload member
  obtain ⟨here, content, limit⟩ := inv.active upload member inode written opened
  rw [List.take_of_length_le whole] at content
  simp only [Disk.rename, here, Option.some.injEq] at renamed
  subst renamed
  -- A name other than the two keeps its file, and the object now has the file of the upload.
  have old {name : Name} {at_ : Inode}
      (seen : Function.update (Function.update s.disk.names .object (some inode)) upload.tmp none
        name = some at_) :
      name = .object ∧ at_ = inode ∨ name ≠ .object ∧ name ≠ upload.tmp ∧
        s.disk.names name = some at_ := by
    by_cases temporary : name = upload.tmp
    · subst temporary
      rw [Function.update_self] at seen
      cases seen
    rw [Function.update_of_ne temporary] at seen
    by_cases object : name = .object
    · subst object
      rw [Function.update_self, Option.some.injEq] at seen
      exact .inl ⟨rfl, seen.symm⟩
    · rw [Function.update_of_ne object] at seen
      exact .inr ⟨object, temporary, seen⟩
  -- The uploads that still have a file open have not changed.
  have left (v : Nat) (other : Upload) (at_ : Inode) (done : Nat)
      (seen : (s.uploads.set u { upload with stage := .completed })[v]? = some other)
      (running : other.Opened at_ done) : v ≠ u ∧ s.uploads[v]? = some other := by
    by_cases same : u = v
    · subst same
      rw [List.getElem?_set_self (List.getElem?_eq_some_iff.mp found).1] at seen
      cases seen
      cases running
    · rw [List.getElem?_set_ne same] at seen
      exact ⟨Ne.symm same, seen⟩
  have moved : Inv { s with
      disk := { s.disk with
        names := Function.update (Function.update s.disk.names .object (some inode)) upload.tmp none }
      completed := s.completed ++ [upload.body]
      uploads := s.uploads.set u { upload with stage := .completed } } := by
    refine ⟨?_, ?_, ?_, ?_, ?_, ?_⟩
    · intro a b at_ first second
      rcases old first with ⟨rfl, rfl⟩ | ⟨-, other, before⟩
      · rcases old second with ⟨rfl, -⟩ | ⟨-, other, before⟩
        · rfl
        · exact absurd (inv.linked b upload.tmp at_ before here) other
      · rcases old second with ⟨rfl, rfl⟩ | ⟨-, -, before'⟩
        · exact absurd (inv.linked a upload.tmp at_ before here) other
        · exact inv.linked a b at_ before before'
    · intro name number seen
      rcases old seen with ⟨-, same⟩ | ⟨-, -, before⟩
      · exact inv.fresh upload.tmp number (same ▸ here)
      · exact inv.fresh name number before
    · intro other listed
      rcases List.mem_or_eq_of_mem_set listed with kept | rfl
      · exact inv.tmp other kept
      · exact tmp
    · intro other listed at_ done running
      obtain ⟨v, seen⟩ := List.mem_iff_getElem?.mp listed
      obtain ⟨different, before⟩ := left v other at_ done seen running
      obtain ⟨there, rest⟩ := inv.active other (List.mem_of_getElem? before) at_ done running
      have apart : other.tmp ≠ upload.tmp := fun same =>
        different (inv.apart v u other upload before found at_ done inode written running opened same)
      refine ⟨?_, rest⟩
      simp only [Function.update_of_ne apart,
        Function.update_of_ne (inv.tmp other (List.mem_of_getElem? before)), there]
    · intro v w first second seen also at_ done at' done' running runningToo same
      exact inv.apart v w first second (left v first at_ done seen running).2
        (left w second at' done' also runningToo).2 at_ done at' done' running runningToo same
    · simp only [Sound, Storage.stored, Disk.read, Function.update_of_ne tmp.symm,
        Function.update_self, Option.map_some, content, List.getLast?_concat, Option.some_or]
  exact moved

theorem Inv.advance (inv : Inv s) {u : Nat} {upload : Upload}
    (found : s.uploads[u]? = some upload) {op : Op}
    (alone : ∀ v, op = .openFile v true → upload.stage = .ready →
      ∀ other ∈ s.uploads, ∀ inode written, other.Opened inode written → other.tmp ≠ upload.tmp) :
    Inv (s.advance u upload op) := by
  have tmp := inv.tmp upload (List.mem_of_getElem? found)
  have stage {stage : Stage} (closed : ∀ inode written, stage ≠ .opened inode written) :
      Inv (s.setStage u upload stage) := inv.setUpload u tmp closed
  unfold Storage.advance
  split
  next receiving =>
    simp only
    split
    · exact stage (by simp)
    · refine inv.setUpload u tmp ?_
      intro inode written opened
      exact absurd (receiving.symm.trans opened) (by simp)
  · exact stage (by simp)
  · exact stage (by simp)
  next ready =>
    split
    next ok =>
      exact inv.openFile found (alone _ (by rw [ok]) ready)
    · exact stage (by simp)
  next inode written _ n opened =>
    obtain ⟨here, content, limit⟩ :=
      inv.active upload (List.mem_of_getElem? found) inode written opened
    have writes := writeAt_take limit n
    simp only [Disk.write, content, writes]
    apply inv.write found here
    · intro v other at_ done seen running same
      exact inv.apart v u other upload seen found at_ done inode written running opened same
    · rw [List.length_take, List.length_drop]
      omega
  · exact stage (by simp)
  next inode written _ ok opened =>
    split
    · exact inv
    rename_i whole
    split
    next renamed =>
      exact inv.rename found opened (Nat.not_lt.mp whole) renamed
    · exact stage (by simp)
  · exact inv

theorem Inv.step {s : Storage} (inv : Inv s) (op : Op) (alone : Alone s op) : Inv (step s op) := by
  have advance (u : Nat) (none_ : ∀ v, op ≠ .openFile v true) : Inv (match s.uploads[u]? with
      | none => s
      | some upload => s.advance u upload op) := by
    split
    · exact inv
    next found =>
      exact inv.advance found fun v same => absurd same (none_ v)
  cases op with
  | put | upload suffix data => exact inv.connect (by simp) (by simp [Upload.Opened])
  | openFile u ok =>
    simp only [FsUploads.step]
    split
    · exact inv
    next upload found =>
      apply inv.advance found
      intro v same ready other member inode written opened
      cases same
      exact alone upload found ready other member (by rw [Upload.isOpen, opened])
  | data u chunk | bodyEnds u | abort u | write u n | writeFails u | rename u ok =>
    exact advance u (by simp)

/-- In a run whose uploads are alone with their temporary files from opening to renaming, the object
is always the whole body of the upload that completed last, or what it was before. -/
theorem uploads_sound (files : Name → Option Bytes) (ops : List Op)
    (alone : Along step Alone (start files) ops) : Sound (run step (start files) ops) :=
  (alone.invariant Inv (fun _ op inv alone => inv.step op alone) (.start files)).sound

/-- Two PUTs one after the other, beside an upload of the server itself. -/
theorem uploads_sound_three :
    Sound (run step (start fun _ => none)
      [.put, .upload [7] [3], .data 0 [1], .bodyEnds 0, .openFile 0 true, .openFile 1 true,
        .write 0 1, .write 1 1, .rename 0 true, .put, .data 2 [2], .rename 1 true, .bodyEnds 2,
        .openFile 2 true, .abort 2, .write 2 1, .rename 2 true]) := by
  exact uploads_sound _ _ (by decide)

/-- Two PUTs share their temporary file: what is stored after the first one's success is of both. -/
theorem uploads_mixed :
    let s := run step (start fun _ => none)
      [.put, .put, .data 0 [1, 1], .data 1 [2, 2], .bodyEnds 0, .bodyEnds 1, .openFile 0 true,
        .openFile 1 true, .write 0 2, .rename 0 true, .write 1 1]
    s.completed = [[1, 1]] ∧ s.stored = some [2, 1] ∧ ¬Sound s := by
  decide

end HelixKit.Backend.FsUploads
