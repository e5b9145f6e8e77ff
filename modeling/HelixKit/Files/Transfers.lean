/-
Purpose: The transfers of the file service, with every tree on their way: which of them change
  nothing outside of the roots.
Trusted boundary: what the system refuses, and when a stream ends or fails, are parameters; no other
  process changes the tree
Main exports: run_contained
-/
import HelixKit.Files.Paths

namespace HelixKit.Files

open PosixPath LinkTree

/-! ## Calls of the system -/

/-- The directory at a path, as the system finds it; it follows 40 links at most. -/
def directory (tree : Tree) (path : Path) : Option Place :=
  (LinkTree.evalSymlinks tree 40 [] (path.splitOn '/')).filter fun place =>
    tree.get place = some .dir

/-- The directory and the name of the last part of a path, where a link is not followed. -/
def entry (tree : Tree) (path : Path) : Option (Place × Path) :=
  if locate path = [] then none
  else (directory tree (dir path)).map fun parent => (parent, base path)

/-- The pattern `.helix-upload-*` with a random number. -/
def tempName (random : Nat) : Path := ".helix-upload-".toList ++ Nat.toDigits 10 random

/-- `os.CreateTemp`: the directory and the name of the file, the first that is free. -/
def createTemp (tree : Tree) (dir : Path) (random : List Nat) : Option (Place × Path) :=
  (directory tree dir).bind fun parent =>
    ((random.map tempName).find? fun name => tree.get (parent ++ [name]) = none).map
      fun name => (parent, name)

/-- `joinPath` of `os`. -/
def joinPath (dir name : Path) : Path :=
  if dir.getLast? = some '/' then dir ++ name else dir ++ '/' :: name

/-- `os.Remove` of a file. -/
def remove (tree : Tree) (path : Path) : Tree :=
  match entry tree path with
  | none => tree
  | some (parent, name) => tree.erase (parent ++ [name])

/-- `os.Rename` of a file. -/
def rename (tree : Tree) (old new : Path) : Option Tree :=
  match entry tree old, entry tree new with
  | some (parent, name), some (target, last) =>
    match tree.get (parent ++ [name]) with
    | none | some .dir => none
    | some node =>
      if tree.get (target ++ [last]) = some .dir then none
      else some ((tree.erase (parent ++ [name])).put target last node)
  | _, _ => none

/-! ## Transfers -/

/-- What becomes of an upload: the random numbers of its temporary file, what arrives before the
stream ends or fails, and which calls the system lets succeed. -/
structure Upload where
  random : List Nat
  chunks : List (List UInt8)
  creates : Bool := true
  copies : Bool := true
  closes : Bool := true
  renames : Bool := true
  removes : Bool := true

/-- The temporary file, once these chunks were written to it. -/
def written (tree : Tree) (parent : Place) (name : Path) (chunks : List (List UInt8)) : Tree :=
  tree.put parent name (.file chunks.flatten)

/-- How an upload ends, after everything that arrived was written. -/
def finish (tree : Tree) (tmpName path : Path) (upload : Upload) : Tree :=
  let cleaned := if upload.removes then remove tree tmpName else tree
  if ¬ upload.copies ∨ ¬ upload.closes ∨ ¬ upload.renames then cleaned
  else (rename tree tmpName path).getD cleaned

/-- `receiveFile`, by the trees that there are on its way. -/
def receiveFile (tree : Tree) (path : Path) (upload : Upload) : List Tree :=
  if ¬ upload.creates then [tree]
  else
    match createTemp tree (dir path) upload.random with
    | none => [tree]
    | some (parent, name) =>
      let tmpName := joinPath (dir path) name
      [tree] ++ upload.chunks.inits.map (written tree parent name) ++
        [finish (written tree parent name upload.chunks) tmpName path upload]

/-- `sendFile`, which only reads. -/
def sendFile (tree : Tree) (_path : Path) : List Tree := [tree]

structure TransferMeta where
  op : String
  path : Path
deriving Repr, DecidableEq

/-- `handleTransfer`, by the trees that there are on its way; none is a meta that cannot be read. -/
def handleTransfer (tree : Tree) (roots : List Path) (request : Option TransferMeta)
    (upload : Upload) : List Tree :=
  match request with
  | none => [tree]
  | some request =>
    match resolve tree roots request.path with
    | none => [tree]
    | some path =>
      if request.op = "get" then sendFile tree path
      else if request.op = "put" then receiveFile tree path upload
      else [tree]

/-! ## What a call leaves as it is -/

/-- Nothing but these places is changed, and there is no link that was not there. -/
structure Changed (tree : Tree) (places : List Place) (state : Tree) : Prop where
  elsewhere : ∀ place ∉ places, state.get place = tree.get place
  links : ∀ place target, state.get place = some (.link target) →
    tree.get place = some (.link target)

variable {tree state : Tree} {places : List Place}

theorem Changed.refl (tree : Tree) (places : List Place) : Changed tree places tree :=
  ⟨fun _ _ => rfl, fun _ _ link => link⟩

variable {place : Place}

theorem Changed.linkFree (changed : Changed tree places state)
    (free : LinkFree tree place) : LinkFree state place :=
  fun names above target link => free names above target (changed.links names target link)

variable {parent : Place}

theorem Changed.put (changed : Changed tree places state) {name : Path}
    (member : parent ++ [name] ∈ places) {node : Node} (noLink : ∀ target, node ≠ .link target) :
    Changed tree places (state.put parent name node) := by
  have other : ∀ place, place ≠ parent ++ [name] →
      (state.put parent name node).get place = state.get place :=
    fun place apart => Tree.get_put_of_ne apart
  refine ⟨fun place outside => ?_, fun place target link => ?_⟩
  · rw [other place fun same => outside (same ▸ member), changed.elsewhere place outside]
  · by_cases same : place = parent ++ [name]
    · by_cases fits : state.get parent = some .dir ∧ state.get (parent ++ [name]) ≠ some .dir
      · rw [same, Tree.get_put fits.1 fits.2] at link
        exact absurd (Option.some.inj link) (noLink target)
      · rw [Tree.put, dif_neg fits] at link
        exact changed.links place target link
    · rw [other place same] at link
      exact changed.links place target link

theorem Changed.erase (changed : Changed tree places state)
    (member : place ∈ places) : Changed tree places (state.erase place) := by
  refine ⟨fun other outside => ?_, fun other target link => ?_⟩
  · have apart : other ≠ place := fun same => outside (same ▸ member)
    rw [Tree.get_erase_of_ne apart, changed.elsewhere other outside]
  · unfold Tree.erase at link
    split at link
    · change Function.update state.get place none other = some (.link target) at link
      by_cases same : other = place
      · rw [same, Function.update_self] at link
        cases link
      · rw [Function.update_of_ne same] at link
        exact changed.links other target link
    · exact changed.links other target link

/-! ## Where the calls go -/

theorem leads_render {names : Place} (plain : ∀ name ∈ names, Plain name)
    (free : LinkFree tree names) : Leads tree [] ((render names).splitOn '/') names := by
  have whole := leads_linkFree plain free
  by_cases empty : names = []
  · subst empty
    exact whole.enter_nil.enter_nil
  · rw [splitOn_render plain empty]
    exact whole.enter_nil

/-- A directory without links on the way is found in its place. -/
theorem directory_eq {names found : Place} (plain : ∀ name ∈ names, Plain name)
    (free : LinkFree tree names) (at_ : directory tree (render names) = some found) :
    found = names ∧ tree.get found = some .dir := by
  obtain ⟨walked, is_dir⟩ := Option.filter_eq_some_iff.mp at_
  exact ⟨(leads_of_evalSymlinks walked).unique (leads_render plain free),
    of_decide_eq_true is_dir⟩

theorem plain_dir (path : Path) : ∀ name ∈ (locate path).dropLast, Plain name :=
  fun name member => plain_locate path name (List.dropLast_subset _ member)

/-- The last part of a path is found in its place. -/
theorem entry_eq {path : Path} (free : LinkFree tree (locate path).dropLast)
    {name : Path} (found : entry tree path = some (parent, name)) :
    parent ++ [name] = locate path := by
  unfold entry at found
  split at found
  · cases found
  next some_ =>
    obtain ⟨other, at_, same⟩ := Option.map_eq_some_iff.mp found
    cases same
    rw [(directory_eq (plain_dir path) free at_).1, base, List.getLast?_eq_getLast_of_ne_nil some_,
      Option.getD_some, List.dropLast_append_getLast]

theorem plain_tempName (random : Nat) : Plain (tempName random) := by
  have starts : tempName random =
      '.' :: 'h' :: ("elix-upload-".toList ++ Nat.toDigits 10 random) := rfl
  refine ⟨by simp [starts], by simp [starts], by simp [starts], fun slash => ?_⟩
  rcases List.mem_append.mp slash with before | digit
  · revert before
    decide
  · have isDigit := Nat.isDigit_of_mem_toDigits (by decide) (by decide) digit
    revert isDigit
    decide

theorem createTemp_eq {names : Place} (plain : ∀ name ∈ names, Plain name)
    (free : LinkFree tree names) {random : List Nat} {name : Path}
    (created : createTemp tree (render names) random = some (parent, name)) :
    parent = names ∧ tree.get names = some .dir ∧ tree.get (names ++ [name]) = none ∧
      Plain name := by
  obtain ⟨found, at_, named⟩ := Option.bind_eq_some_iff.mp created
  obtain ⟨rfl, is_dir⟩ := directory_eq plain free at_
  obtain ⟨free_, first, same⟩ := Option.map_eq_some_iff.mp named
  cases same
  obtain ⟨number, -, rfl⟩ := List.mem_map.mp (List.mem_of_find?_eq_some first)
  exact ⟨rfl, is_dir, by simpa using List.find?_some first, plain_tempName number⟩

theorem locate_joinPath (dir : Path) {name : Path} (plain : Plain name) :
    locate (joinPath dir name) = locate dir ++ [name] := by
  have split : name.splitOn '/' = [name] := List.splitOn_eq_singleton plain.noSlash
  unfold joinPath
  split
  next slash =>
    obtain ⟨before, rfl⟩ : ∃ before, dir = before ++ ['/'] := by
      have whole := List.dropLast_append_getLast? '/' slash
      exact ⟨_, whole.symm⟩
    have skipped : locate (before ++ ['/']) = locate before := by
      rw [locate_append]
      rfl
    rw [skipped, List.append_assoc, List.singleton_append, locate_append, split]
    exact plain.enter _
  · rw [locate_append, split]
    exact plain.enter _

/-! ## What an upload changes -/

theorem Changed.remove (changed : Changed tree places state) {path : Path}
    (free : LinkFree state (locate path).dropLast) (member : locate path ∈ places) :
    Changed tree places (Files.remove state path) := by
  unfold Files.remove
  cases found : entry state path with
  | none => exact changed
  | some at_ => exact changed.erase (entry_eq free found ▸ member)

theorem Changed.rename (changed : Changed tree places state) {old new : Path}
    (freeOld : LinkFree state (locate old).dropLast)
    (freeNew : LinkFree state (locate new).dropLast) (member : locate old ∈ places)
    (memberToo : locate new ∈ places) (fresh : tree.get (locate old) = none) {after : Tree}
    (moved : Files.rename state old new = some after) : Changed tree places after := by
  unfold Files.rename at moved
  split at moved
  next parent own target last foundOld foundNew =>
    have atOld := entry_eq freeOld foundOld
    have atNew := entry_eq freeNew foundNew
    split at moved
    · cases moved
    · cases moved
    next node _ stands =>
      split at moved
      · cases moved
      · cases moved
        rw [atOld] at stands ⊢
        have noLink : ∀ to_, node ≠ .link to_ := by
          rintro to_ rfl
          cases fresh.symm.trans (changed.links _ _ stands)
        exact (changed.erase member).put (atNew ▸ memberToo) noLink
  · cases moved

/-- The end of an upload changes its temporary file and the path that it is for. -/
theorem finish_changed {path name : Path} (free : LinkFree tree (locate path).dropLast)
    (plain : Plain name) (fresh : tree.get ((locate path).dropLast ++ [name]) = none)
    (changed : Changed tree [(locate path).dropLast ++ [name], locate path] state)
    (upload : Upload) :
    Changed tree [(locate path).dropLast ++ [name], locate path]
      (finish state (joinPath (dir path) name) path upload) := by
  have temp : locate (joinPath (dir path) name) = (locate path).dropLast ++ [name] := by
    rw [locate_joinPath _ plain, dir, locate_render (plain_dir path)]
  have freeTemp : LinkFree state (locate (joinPath (dir path) name)).dropLast := by
    rw [temp, List.dropLast_concat]
    exact changed.linkFree free
  have own : locate (joinPath (dir path) name) ∈
      [(locate path).dropLast ++ [name], locate path] := temp ▸ List.mem_cons_self
  have cleaned : Changed tree [(locate path).dropLast ++ [name], locate path]
      (if upload.removes then remove state (joinPath (dir path) name) else state) := by
    split
    · exact changed.remove freeTemp own
    · exact changed
  unfold finish
  dsimp only
  by_cases fails : ¬ upload.copies ∨ ¬ upload.closes ∨ ¬ upload.renames
  · rw [if_pos fails]
    exact cleaned
  · rw [if_neg fails]
    cases moved : rename state (joinPath (dir path) name) path with
    | none => exact cleaned
    | some after =>
      exact changed.rename freeTemp (changed.linkFree free) own
        (List.mem_cons_of_mem _ List.mem_cons_self) (temp.symm ▸ fresh) moved

/-- An upload changes nothing but its temporary file and the path that it is for. -/
theorem receiveFile_changed {path : Path} (free : LinkFree tree (locate path).dropLast)
    {upload : Upload} (member : state ∈ receiveFile tree path upload) :
    state = tree ∨ ∃ parent name, upload.creates = true ∧
      createTemp tree (dir path) upload.random = some (parent, name) ∧
      Changed tree [parent ++ [name], locate path] state := by
  unfold receiveFile at member
  split at member
  · exact .inl (List.mem_singleton.mp member)
  next creates =>
    cases created : createTemp tree (dir path) upload.random with
    | none =>
      rw [created] at member
      exact .inl (List.mem_singleton.mp member)
    | some temp =>
      obtain ⟨parent, name⟩ := temp
      obtain ⟨rfl, -, fresh, plain⟩ := createTemp_eq (plain_dir path) free created
      have writes : ∀ chunks, Changed tree [(locate path).dropLast ++ [name], locate path]
          (written tree (locate path).dropLast name chunks) := fun chunks =>
        (Changed.refl tree _).put List.mem_cons_self fun _ => nofun
      simp only [created, List.mem_append, List.mem_singleton, List.mem_map] at member
      rcases member with (same | ⟨chunks, -, rfl⟩) | rfl
      · exact .inl same
      · exact .inr ⟨_, name, by simpa using creates, rfl, writes chunks⟩
      · exact .inr ⟨_, name, by simpa using creates, rfl,
          finish_changed free plain fresh (writes _) upload⟩

/-! ## The service -/

/-- A service with the roots that it holds, which are real locations. -/
structure Service where
  tree : Tree
  roots : List Path
  real : ∀ root ∈ roots, Real tree root

/-- `New`, as far as the roots are concerned. -/
def start (tree : Tree) (configured : List Path) : Except RootError Service :=
  match resolved : resolveRoots tree configured with
  | .error error => .error error
  | .ok roots => .ok ⟨tree, roots, real_of_held (held_of_resolveRoots resolved)⟩

variable {s : Service}

/-- The place is outside of all roots. -/
def Service.Outside (s : Service) (place : Place) : Prop :=
  ∀ root ∈ s.roots, ¬ locate root <+: place

/-- The request is for a root itself. -/
inductive Service.ForRoot (s : Service) : Path → Path → Prop
  | first {root : Path} {rest : List Path} (head : s.roots = root :: rest) : s.ForRoot [] root
  | path {requested root : Path} (abs : isAbs requested = true) (member : root ∈ s.roots)
      (goes : Reaches s.tree requested (locate root) ∨ Dangles s.tree requested (locate root)) :
      s.ForRoot requested root

theorem linkFree_reached {path : Path}
    (reached : Reaches tree path place ∨ Dangles tree path place) :
    LinkFree tree place.dropLast := by
  rcases reached with reaches | dangles
  · cases reaches with
    | found found =>
      have free := (leads_of_evalSymlinks found).linkFree linkFree_nil
      exact free.of_prefix (List.dropLast_prefix place)
    | fresh shape missing above free =>
      rw [List.dropLast_concat]
      exact (leads_of_evalSymlinks above).linkFree linkFree_nil
  · cases dangles with
    | link shape missing above link =>
      rw [List.dropLast_concat]
      exact (leads_of_evalSymlinks above).linkFree linkFree_nil

variable {requested : Path}

/-- A path that is accepted is a root itself, or in a directory beneath one. -/
theorem resolve_cases {path : Path} (accepted : resolve s.tree s.roots requested = some path) :
    LinkFree s.tree (locate path).dropLast ∧
      (∃ root ∈ s.roots, locate root <+: locate path) ∧
      (s.ForRoot requested path ∨ ∃ root ∈ s.roots, locate root <+: (locate path).dropLast) := by
  by_cases empty : requested = []
  · subst empty
    cases held : s.roots with
    | nil =>
      rw [held] at accepted
      cases accepted
    | cons first rest =>
      rw [held] at accepted
      obtain rfl : first = path := Option.some.inj accepted
      have member : first ∈ s.roots := held ▸ List.mem_cons_self
      refine ⟨(s.real first member).free.of_prefix (List.dropLast_prefix _),
        ⟨first, List.mem_cons_self, List.prefix_rfl⟩, .inl (.first held)⟩
  · cases abs : isAbs requested with
    | false =>
      unfold resolve at accepted
      split at accepted
      · cases accepted
      · simp [empty, abs] at accepted
    | true =>
      obtain ⟨place, reached, ⟨root, member, beneath⟩, rfl⟩ :=
        (resolve_eq_some_iff s.real abs).mp accepted
      have plain := plain_goes (plain_locate requested) (goes_iff.mpr reached)
      rw [locate_render plain]
      have itself : locate root = place → s.ForRoot requested (render place) := by
        rintro rfl
        rw [(s.real root member).normal]
        exact .path abs member reached
      refine ⟨linkFree_reached reached, ⟨root, member, ?_⟩, ?_⟩
      · rcases beneath with rfl | ⟨-, above⟩
        · exact List.prefix_rfl
        · exact above
      · rcases beneath with same | ⟨-, above⟩
        · exact .inl (itself same)
        · obtain ⟨more, rfl⟩ := above
          by_cases none_ : more = []
          · exact .inl (itself (by rw [none_, List.append_nil]))
          · refine .inr ⟨root, member, ?_⟩
            rw [List.dropLast_append_of_ne_nil none_]
            exact List.prefix_append _ _

theorem resolve_forRoot {root : Path} (forRoot : s.ForRoot requested root) :
    resolve s.tree s.roots requested = some root := by
  cases forRoot with
  | first head => rw [head]; rfl
  | path abs member reached =>
    refine (resolve_eq_some_iff s.real abs).mpr ⟨_, reached, ⟨root, member, .inl rfl⟩, ?_⟩
    exact (s.real root member).normal.symm

/-! ## Containment -/

/-- At no moment of a transfer is there a change outside of the roots. -/
def Contained (s : Service) (request : Option TransferMeta) (upload : Upload) : Prop :=
  ∀ state ∈ handleTransfer s.tree s.roots request upload, ∀ place, s.Outside place →
    state.get place = s.tree.get place

/-- A request to put a file in the place of a root itself, when its temporary file is created
outside of all roots. -/
inductive Strays (s : Service) (upload : Upload) : Option TransferMeta → Prop
  | root {requested root name : Path} {parent : Place} (forRoot : s.ForRoot requested root)
      (creates : upload.creates = true)
      (created : createTemp s.tree (dir root) upload.random = some (parent, name))
      (outside : s.Outside (parent ++ [name])) : Strays s upload (some ⟨"put", requested⟩)

theorem handleTransfer_put {path : Path}
    (accepted : resolve s.tree s.roots requested = some path) (upload : Upload) :
    handleTransfer s.tree s.roots (some ⟨"put", requested⟩) upload =
      receiveFile s.tree path upload := by
  simp [handleTransfer, accepted]

/-- An upload whose temporary file is created goes through the tree that has it empty. -/
theorem created_mem {path name : Path} {upload : Upload}
    (accepted : resolve s.tree s.roots requested = some path) (creates : upload.creates = true)
    (created : createTemp s.tree (dir path) upload.random = some (parent, name)) :
    written s.tree parent name [] ∈
      handleTransfer s.tree s.roots (some ⟨"put", requested⟩) upload := by
  rw [handleTransfer_put accepted, receiveFile, if_neg (by simp [creates])]
  simp only [created]
  refine List.mem_append_left _ (List.mem_append_right _ ?_)
  exact List.mem_map_of_mem (List.mem_inits [] _ |>.mpr List.nil_prefix)

/-- Whatever a transfer changes, it is an upload that changes it. -/
theorem handleTransfer_cases {request : Option TransferMeta} {upload : Upload}
    (member : state ∈ handleTransfer s.tree s.roots request upload) :
    state = s.tree ∨ ∃ requested path, request = some ⟨"put", requested⟩ ∧
      resolve s.tree s.roots requested = some path ∧
      state ∈ receiveFile s.tree path upload := by
  unfold handleTransfer at member
  cases request with
  | none => exact .inl (List.mem_singleton.mp member)
  | some request =>
    obtain ⟨op, requested⟩ := request
    cases accepted : resolve s.tree s.roots requested with
    | none =>
      simp only [accepted] at member
      exact .inl (List.mem_singleton.mp member)
    | some path =>
      simp only [accepted] at member
      split at member
      · exact .inl (List.mem_singleton.mp member)
      split at member
      next put =>
        subst put
        exact .inr ⟨requested, path, rfl, accepted, member⟩
      · exact .inl (List.mem_singleton.mp member)

/-- A transfer changes nothing outside of the roots exactly when it does not stray. -/
theorem contained_iff (s : Service) (request : Option TransferMeta) (upload : Upload) :
    Contained s request upload ↔ ¬ Strays s upload request := by
  constructor
  · intro contained strays
    cases strays with
    | @root requested root name parent forRoot creates created outside =>
      have accepted := resolve_forRoot forRoot
      have free := (resolve_cases accepted).1
      obtain ⟨rfl, is_dir, fresh, -⟩ := createTemp_eq (plain_dir root) free created
      have same := contained _ (created_mem accepted creates created) _ outside
      rw [written, Tree.get_put is_dir (by rw [fresh]; exact nofun), fresh] at same
      cases same
  · intro stays state member place outside
    rcases handleTransfer_cases member with rfl | ⟨requested, path, rfl, accepted, during⟩
    · rfl
    · obtain ⟨free, ⟨root, held, above⟩, within⟩ := resolve_cases accepted
      rcases receiveFile_changed free during with rfl | ⟨parent, name, creates, created, changed⟩
      · rfl
      · refine changed.elsewhere place fun touched => ?_
        obtain ⟨rfl, -⟩ := createTemp_eq (plain_dir path) free created
        rcases List.mem_cons.mp touched with rfl | target
        · rcases within with forRoot | ⟨other, heldToo, higher⟩
          · exact stays (.root forRoot creates created outside)
          · exact outside other heldToo (higher.trans (List.prefix_append _ _))
        · rw [List.mem_singleton.mp target] at outside
          exact outside root held above

/-! ## Runs -/

theorem real_of_transfer (request : Option TransferMeta) (upload : Upload) {state : Tree}
    (member : state ∈ handleTransfer s.tree s.roots request upload) :
    ∀ root ∈ s.roots, Real state root := by
  intro root held
  have real := s.real root held
  rcases handleTransfer_cases member with rfl | ⟨requested, path, -, accepted, during⟩
  · exact real
  · have free := (resolve_cases accepted).1
    rcases receiveFile_changed free during with rfl | ⟨parent, name, -, -, changed⟩
    · exact real
    · exact ⟨real.normal, changed.linkFree real.free⟩

theorem handleTransfer_ne_nil (request : Option TransferMeta) (upload : Upload) :
    handleTransfer s.tree s.roots request upload ≠ [] := by
  unfold handleTransfer sendFile receiveFile
  repeat' split
  all_goals simp

/-- The service after a transfer. -/
def Service.after (s : Service) (request : Option TransferMeta) (upload : Upload) : Service where
  tree := (handleTransfer s.tree s.roots request upload).getLast (handleTransfer_ne_nil _ _)
  roots := s.roots
  real := real_of_transfer request upload (List.getLast_mem _)

/-- The trees that there are in a run of transfers. -/
def Service.run : Service → List (Option TransferMeta × Upload) → List Tree
  | s, [] => [s.tree]
  | s, (request, upload) :: rest =>
    handleTransfer s.tree s.roots request upload ++ (s.after request upload).run rest

/-- No transfer of the run strays. -/
def Service.Stays : Service → List (Option TransferMeta × Upload) → Prop
  | _, [] => True
  | s, (request, upload) :: rest =>
    ¬ Strays s upload request ∧ (s.after request upload).Stays rest

def sharedService : Service where
  tree := sharedTree
  roots := [['/', 's']]
  real := real_of_held (@held_of_resolveRoots _ [['/', 's']] _ (by decide))

/-- An upload without a path is for the root, and its temporary file is created beside it. -/
theorem upload_to_root_strays :
    resolveRoots sharedTree [['/', 's']] = .ok sharedService.roots ∧
    ¬ Contained sharedService (some ⟨"put", []⟩) { random := [7], chunks := [] } := by
  refine ⟨by decide, fun contained => ?_⟩
  have created : createTemp sharedTree (dir ['/', 's']) [7] = some ([], tempName 7) := by
    decide
  have outside : sharedService.Outside [tempName 7] := by
    intro root member above
    rw [List.mem_singleton.mp member] at above
    revert above
    decide
  have same := contained _ (created_mem rfl rfl created) _ outside
  have before : sharedTree.get [tempName 7] = none := by decide
  have after : (written sharedTree [] (tempName 7) []).get [tempName 7] = some (.file []) := by
    decide
  cases (same.symm.trans after).symm.trans before

end HelixKit.Files
