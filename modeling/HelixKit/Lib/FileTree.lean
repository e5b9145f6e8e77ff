/-
Purpose: A tree of files, directories and symbolic links, with the calls that read and change it.
Trusted boundary: a link names where it leads to in the end, and is followed at the end of a path
  only; a call fails only because of a node that is in its way
-/
import HelixKit.Lib.PosixPath
import Mathlib.Data.List.Infix

namespace HelixKit.FileTree

open PosixPath

/-- The names that lead to a node from the root. -/
abbrev Place : Type := List Path

inductive Node where
  | file (content : String)
  | dir
  | link (target : Place)
deriving Repr, DecidableEq

structure Tree where
  nodes : List (Place × Node)
deriving Repr, DecidableEq

namespace Tree

variable (tree : Tree)

def get (place : Place) : Option Node := tree.nodes.lookup place

def erase (place : Place) : Tree := ⟨tree.nodes.filter fun entry => entry.1 ≠ place⟩

def put (place : Place) (node : Node) : Tree := ⟨(place, node) :: (tree.erase place).nodes⟩

/-- Where a call on a place goes. -/
def follow (place : Place) : Place :=
  match tree.get place with
  | some (.link target) => target
  | _ => place

/-- `os.ReadFile` -/
def read (place : Place) : Option String :=
  match tree.get (tree.follow place) with
  | some (.file content) => some content
  | _ => none

/-- `os.WriteFile` -/
def write (place : Place) (content : String) : Option Tree :=
  match tree.get (tree.follow place) with
  | some .dir | some (.link _) => none
  | _ => some (tree.put (tree.follow place) (.file content))

/-- `os.Rename` of a file or a link. -/
def rename (source target : Place) : Option Tree :=
  match tree.get source with
  | none => none
  | some node =>
    if tree.get target = some .dir then none else some ((tree.erase source).put target node)

/-- `os.Remove`, where a node that is missing is no failure. -/
def remove (place : Place) : Option Tree :=
  if tree.get place = some .dir ∧
      tree.nodes.any fun entry => place.isPrefixOf entry.1 ∧ entry.1 ≠ place then none
  else some (tree.erase place)

/-- One directory of `os.MkdirAll`. -/
def mkdir (place : Place) : Option Tree :=
  match tree.get place with
  | none => some (tree.put place .dir)
  | some (.file _) => none
  | some .dir | some (.link _) => some tree

/-- `os.MkdirAll` -/
def mkdirAll (place : Place) : Option Tree := place.inits.foldlM mkdir tree

/-- The names of the entries of a directory. -/
def namesIn (place : Place) : List Path :=
  tree.nodes.filterMap fun entry =>
    if entry.1.dropLast = place then entry.1.getLast? else none

variable {tree} {place other : Place} {node : Node}

@[simp] theorem get_erase :
    (tree.erase place).get other = if other = place then none else tree.get other := by
  unfold get erase
  induction tree.nodes with
  | nil => simp
  | cons entry rest ih =>
    obtain ⟨at_, kept⟩ := entry
    simp only [List.filter_cons, List.lookup_cons]
    by_cases gone : at_ = place
    · subst gone
      simp only [ne_eq, not_true_eq_false, decide_false, Bool.false_eq_true, if_false, ih]
      by_cases same : other = at_ <;> simp [same, beq_eq_false_iff_ne.mpr]
    simp only [ne_eq, gone, not_false_eq_true, decide_true, if_true, List.lookup_cons, ih]
    by_cases same : other = at_
    · subst same
      simp [gone]
    · simp [beq_eq_false_iff_ne.mpr same]

@[simp] theorem get_put :
    (tree.put place node).get other = if other = place then some node else tree.get other := by
  have erased : (tree.erase place).get other = if other = place then none else tree.get other :=
    get_erase
  unfold get put at *
  rw [List.lookup_cons]
  by_cases same : other = place
  · simp [same]
  · rw [beq_eq_false_iff_ne.mpr same]
    simpa [same] using erased

theorem isSome_get :
    (tree.get place).isSome ↔ ∃ node, (place, node) ∈ tree.nodes := by
  unfold get
  rw [List.lookup_isSome_iff]
  constructor
  · rintro ⟨⟨at_, node⟩, member, same⟩
    obtain rfl : place = at_ := by simpa using same
    exact ⟨node, member⟩
  · rintro ⟨node, member⟩
    exact ⟨(place, node), member, by simp⟩

theorem mem_namesIn {name : Path} :
    name ∈ tree.namesIn place ↔ (tree.get (place ++ [name])).isSome := by
  rw [isSome_get, namesIn, List.mem_filterMap]
  constructor
  · rintro ⟨⟨at_, node⟩, member, named⟩
    split at named
    next inside =>
      have shape : at_ = place ++ [name] := by
        rw [← inside]
        exact (List.dropLast_append_getLast? name named).symm
      exact ⟨node, shape ▸ member⟩
    · cases named
  · rintro ⟨node, member⟩
    exact ⟨_, member, by simp⟩

theorem read_iff {content : String} :
    tree.read place = some content ↔ tree.get (tree.follow place) = some (.file content) := by
  unfold read
  split
  next found =>
    rw [found]
    simp
  next other =>
    constructor
    · intro none_some
      cases none_some
    · intro found
      exact absurd found (other content)

theorem follow_of_not_link (plain : ∀ target, tree.get place ≠ some (.link target)) :
    tree.follow place = place := by
  unfold follow
  split
  next target found =>
    exact absurd found (plain target)
  · rfl

/-- A write goes to where the link leads, and makes a file there. -/
theorem write_eq {content : String} {after : Tree}
    (written : tree.write place content = some after) :
    after = tree.put (tree.follow place) (.file content) := by
  unfold write at written
  split at written
  · cases written
  · cases written
  · exact (Option.some.inj written).symm

theorem rename_eq {source target : Place} {after : Tree}
    (renamed : tree.rename source target = some after) (there : tree.get source = some node) :
    after = (tree.erase source).put target node := by
  unfold rename at renamed
  simp only [there] at renamed
  split at renamed
  · cases renamed
  · exact (Option.some.inj renamed).symm

theorem remove_eq {after : Tree} (removed : tree.remove place = some after) :
    after = tree.erase place := by
  unfold remove at removed
  split at removed
  · cases removed
  · exact (Option.some.inj removed).symm

/-- Only the directories on the way to a place are made. -/
theorem mkdirAll_get {after : Tree} (made : tree.mkdirAll place = some after)
    (outside : ¬ other <+: place) : after.get other = tree.get other := by
  unfold mkdirAll at made
  have prefixes : ∀ step ∈ place.inits, other ≠ step := fun step member same =>
    outside (same ▸ (List.mem_inits step place).mp member)
  generalize place.inits = steps at made prefixes
  induction steps generalizing tree with
  | nil => rw [← Option.some.inj made]
  | cons step rest ih =>
    rw [List.foldlM_cons] at made
    obtain ⟨between, first, made⟩ := Option.bind_eq_some_iff.mp made
    have unchanged : between.get other = tree.get other := by
      unfold mkdir at first
      split at first
      · rw [← Option.some.inj first, get_put, if_neg (prefixes step List.mem_cons_self)]
      · cases first
      · rw [← Option.some.inj first]
      · rw [← Option.some.inj first]
    rw [ih made fun other_step member => prefixes other_step (List.mem_cons_of_mem _ member),
      unchanged]

/-- No file is made or lost. -/
theorem mkdirAll_file {after : Tree} (made : tree.mkdirAll place = some after) {content : String} :
    after.get other = some (.file content) ↔ tree.get other = some (.file content) := by
  unfold mkdirAll at made
  generalize place.inits = steps at made
  induction steps generalizing tree with
  | nil => rw [← Option.some.inj made]
  | cons step rest ih =>
    rw [List.foldlM_cons] at made
    obtain ⟨between, first, made⟩ := Option.bind_eq_some_iff.mp made
    have same : between.get other = some (.file content) ↔
        tree.get other = some (.file content) := by
      unfold mkdir at first
      split at first
      next missing =>
        rw [← Option.some.inj first, get_put]
        split
        next there =>
          rw [there, missing]
          simp
        · rfl
      · cases first
      · rw [← Option.some.inj first]
      · rw [← Option.some.inj first]
    rw [ih made, same]

end Tree

end HelixKit.FileTree
