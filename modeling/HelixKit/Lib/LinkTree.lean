/-
Purpose: A tree of directories, files and symbolic links that hold the text of a path: where a path
  leads to, whatever is missing on its way, and the resolution of a path that exists.
Trusted boundary: every directory can be searched
-/
import HelixKit.Lib.PosixPath
import Mathlib.Data.List.Infix
import Mathlib.Logic.Function.Basic

namespace HelixKit.LinkTree

open PosixPath

/-- The names that lead to a node from the root. -/
abbrev Place : Type := List Path

inductive Node where
  | file (content : List UInt8)
  | dir
  | link (target : Path)
deriving Repr, DecidableEq

/-- What stands at each place; only a directory has entries. -/
structure Tree where
  get : Place → Option Node
  root : get [] = some .dir
  parents : ∀ place name, (get (place ++ [name])).isSome → get place = some .dir

namespace Tree

/-- The tree of an empty root. -/
def bare : Tree where
  get place := if place = [] then some .dir else none
  root := rfl
  parents := by simp

variable (tree : Tree)

/-- A node is put where there is a directory for it, and none in its place. -/
def put (dir : Place) (name : Path) (node : Node) : Tree :=
  if fits : tree.get dir = some .dir ∧ tree.get (dir ++ [name]) ≠ some .dir then
    { get := Function.update tree.get (dir ++ [name]) (some node)
      root := by
        rw [Function.update_of_ne (by simp)]
        exact tree.root
      parents := by
        intro place other present
        have at_dir : place = dir → Function.update tree.get (dir ++ [name]) (some node) place =
            some .dir := by
          rintro rfl
          rw [Function.update_of_ne (by simp)]
          exact fits.1
        by_cases same : place ++ [other] = dir ++ [name]
        · exact at_dir (List.append_inj_left' same rfl)
        · rw [Function.update_of_ne same] at present
          have inside := tree.parents place other present
          have apart : place ≠ dir ++ [name] := fun here => fits.2 (here ▸ inside)
          rw [Function.update_of_ne apart]
          exact inside }
  else tree

/-- A node that is no directory is taken away. -/
def erase (place : Place) : Tree :=
  if leaf : tree.get place ≠ some .dir then
    { get := Function.update tree.get place none
      root := by
        have apart : [] ≠ place := fun here => leaf (here ▸ tree.root)
        rw [Function.update_of_ne apart]
        exact tree.root
      parents := by
        intro other name present
        by_cases gone : other ++ [name] = place
        · rw [gone, Function.update_self] at present
          cases present
        · rw [Function.update_of_ne gone] at present
          have inside := tree.parents other name present
          have apart : other ≠ place := fun here => leaf (here ▸ inside)
          rw [Function.update_of_ne apart]
          exact inside }
  else tree

variable {tree} {dir place other : Place} {name : Path} {node : Node}

theorem get_put_of_ne (apart : other ≠ dir ++ [name]) :
    (tree.put dir name node).get other = tree.get other := by
  unfold put
  split
  · exact Function.update_of_ne apart _ _
  · rfl

theorem get_put (inside : tree.get dir = some .dir) (leaf : tree.get (dir ++ [name]) ≠ some .dir) :
    (tree.put dir name node).get (dir ++ [name]) = some node := by
  rw [put, dif_pos ⟨inside, leaf⟩]
  exact Function.update_self _ _ _

theorem get_erase_of_ne (apart : other ≠ place) :
    (tree.erase place).get other = tree.get other := by
  unfold erase
  split
  · exact Function.update_of_ne apart _ _
  · rfl

end Tree

/-! ## Where a path leads to -/

/-- Where the target of a link starts. -/
def start (dest : Place) (target : Path) : Place := if target.head? = some '/' then [] else dest

/-- The target of the link that a part of a path names. -/
def Tree.linkAt (tree : Tree) (dest : Place) (part : Path) : Option Path :=
  if part = [] ∨ part = ['.'] ∨ part = ['.', '.'] then none
  else
    match tree.get (dest ++ [part]) with
    | some (.link target) => some target
    | _ => none

/-- Where the parts of a path lead to from a place, after all links; a part that is missing is kept
as it is. -/
inductive Leads (tree : Tree) : Place → List Path → Place → Prop
  | done (dest : Place) : Leads tree dest [] dest
  | enter {dest place : Place} {part : Path} {rest : List Path}
      (free : tree.linkAt dest part = none)
      (later : Leads tree (PosixPath.enter dest part) rest place) :
      Leads tree dest (part :: rest) place
  | follow {dest place : Place} {part target : Path} {rest : List Path}
      (link : tree.linkAt dest part = some target)
      (later : Leads tree (start dest target) (target.splitOn '/' ++ rest) place) :
      Leads tree dest (part :: rest) place

/-! ## The resolution of paths that exist -/

/-- One pass of `filepath.EvalSymlinks`, to the first link. -/
def evalFrom (tree : Tree) (follow : Place → List Path → Option Place) :
    Place → List Path → Option Place
  | dest, [] => some dest
  | dest, part :: rest =>
    if part = [] ∨ part = ['.'] then evalFrom tree follow dest rest
    else if part = ['.', '.'] then evalFrom tree follow dest.dropLast rest
    else
      match tree.get (dest ++ [part]) with
      | none => none
      | some .dir => evalFrom tree follow (dest ++ [part]) rest
      | some (.file _) => if rest = [] then some (dest ++ [part]) else none
      | some (.link target) => follow (start dest target) (target.splitOn '/' ++ rest)

/-- `filepath.EvalSymlinks`, with so many links at most. -/
def evalSymlinks (tree : Tree) : Nat → Place → List Path → Option Place
  | 0 => evalFrom tree fun _ _ => none
  | links + 1 => evalFrom tree (evalSymlinks tree links)

/-! ## What leads to a place -/

variable {tree : Tree} {dest mid place other : Place} {parts more : List Path}

theorem Leads.unique (one : Leads tree dest parts place) (two : Leads tree dest parts other) :
    place = other := by
  induction one with
  | done dest =>
    cases two
    rfl
  | enter free later ih =>
    cases two with
    | enter _ later => exact ih later
    | follow link _ => cases free.symm.trans link
  | follow link later ih =>
    cases two with
    | enter free _ => cases free.symm.trans link
    | follow same later =>
      cases link.symm.trans same
      exact ih later

theorem Leads.enter_nil (skip : Leads tree dest parts place) :
    Leads tree dest ([] :: parts) place :=
  .enter (by simp [Tree.linkAt]) skip

/-- What a pass finds, the path leads to. -/
theorem leads_of_evalFrom {follow : Place → List Path → Option Place}
    (next : ∀ dest parts place, follow dest parts = some place → Leads tree dest parts place)
    (found : evalFrom tree follow dest parts = some place) : Leads tree dest parts place := by
  induction parts generalizing dest with
  | nil =>
    cases found
    exact .done _
  | cons part rest ih =>
    unfold evalFrom at found
    by_cases here : part = [] ∨ part = ['.']
    · rw [if_pos here] at found
      refine .enter (by rcases here with rfl | rfl <;> rfl) ?_
      rw [PosixPath.enter, if_pos here]
      exact ih found
    rw [if_neg here] at found
    by_cases above : part = ['.', '.']
    · rw [if_pos above] at found
      refine .enter (by rw [above]; rfl) ?_
      rw [PosixPath.enter, if_neg here, if_pos above]
      exact ih found
    rw [if_neg above] at found
    have named : ¬ (part = [] ∨ part = ['.'] ∨ part = ['.', '.']) := by tauto
    have entered : PosixPath.enter dest part = dest ++ [part] := by
      rw [PosixPath.enter, if_neg here, if_neg above]
    cases node : tree.get (dest ++ [part]) with
    | none =>
      rw [node] at found
      cases found
    | some node_ =>
      cases node_ with
      | dir =>
        simp only [node] at found
        refine .enter (by simp [Tree.linkAt, node]) ?_
        rw [entered]
        exact ih found
      | file content =>
        simp only [node] at found
        refine .enter (by simp [Tree.linkAt, node]) ?_
        rw [entered]
        split at found
        next last =>
          cases found
          rw [last]
          exact .done _
        · cases found
      | link target =>
        simp only [node] at found
        exact .follow (by simp [Tree.linkAt, named, node]) (next _ _ _ found)

/-- A path that is resolved leads there. -/
theorem leads_of_evalSymlinks {links : Nat}
    (found : evalSymlinks tree links dest parts = some place) : Leads tree dest parts place := by
  induction links generalizing dest parts place with
  | zero => exact leads_of_evalFrom (fun _ _ _ none_ => by cases none_) found
  | succ links ih => exact leads_of_evalFrom (fun _ _ _ later => ih later) found

/-! ## Places without links -/

/-- No name on the way to the place is a link. -/
def LinkFree (tree : Tree) (place : Place) : Prop :=
  ∀ names, names <+: place → ∀ target, tree.get names ≠ some (.link target)

theorem linkFree_nil : LinkFree tree [] := by
  intro names short target link
  rw [List.prefix_nil.mp short, tree.root] at link
  cases link

theorem LinkFree.of_prefix (free : LinkFree tree place) (above : other <+: place) :
    LinkFree tree other := fun names short => free names (short.trans above)

theorem LinkFree.start (free : LinkFree tree dest) (target : Path) :
    LinkFree tree (LinkTree.start dest target) := by
  unfold LinkTree.start
  split
  · exact linkFree_nil
  · exact free

theorem LinkFree.enter (free : LinkFree tree dest) {part : Path}
    (here : tree.linkAt dest part = none) : LinkFree tree (PosixPath.enter dest part) := by
  unfold PosixPath.enter
  split
  · exact free
  rename_i named
  split
  · exact free.of_prefix (List.dropLast_prefix dest)
  rename_i down
  intro names short target link
  rcases List.prefix_concat_iff.mp short with whole | before
  · have named_ : ¬ (part = [] ∨ part = ['.'] ∨ part = ['.', '.']) := by tauto
    rw [Tree.linkAt, if_neg named_, ← whole, link] at here
    cases here
  · exact free names before target link

theorem Leads.linkFree (leads : Leads tree dest parts place) (free : LinkFree tree dest) :
    LinkFree tree place := by
  induction leads with
  | done dest => exact free
  | enter here later ih => exact ih (free.enter here)
  | follow link later ih => exact ih (free.start _)

/-- On a place without links, its names lead to itself. -/
theorem leads_linkFree (plain : ∀ name ∈ place, Plain name) (free : LinkFree tree place) :
    Leads tree [] place place := by
  have from_ : ∀ rest before : Place, before ++ rest = place → Leads tree before rest place := by
    intro rest
    induction rest with
    | nil =>
      intro before whole
      rw [List.append_nil] at whole
      exact whole ▸ .done before
    | cons name rest ih =>
      intro before whole
      have named : Plain name := plain name (whole ▸ by simp)
      have longer : before ++ [name] ++ rest = place := by simpa using whole
      refine .enter ?_ ?_
      · have no := free (before ++ [name]) ⟨rest, longer⟩
        unfold Tree.linkAt
        split
        · rfl
        · cases node : tree.get (before ++ [name]) with
          | none => rfl
          | some node_ =>
            cases node_ with
            | link target => exact absurd node (no target)
            | file content => rfl
            | dir => rfl
      · rw [named.enter]
        exact ih _ longer
  exact from_ place [] rfl

/-! ## Names -/

theorem plain_start (plain : ∀ name ∈ dest, Plain name) (target : Path) :
    ∀ name ∈ start dest target, Plain name := by
  unfold start
  split
  · simp
  · exact plain

theorem Leads.plain (leads : Leads tree dest parts place) (noSlash : ∀ part ∈ parts, '/' ∉ part)
    (plain : ∀ name ∈ dest, Plain name) : ∀ name ∈ place, Plain name := by
  induction leads with
  | done dest => exact plain
  | enter here later ih =>
    exact ih (fun part member => noSlash part (List.mem_cons_of_mem _ member))
      (plain_enter plain (noSlash _ List.mem_cons_self))
  | follow link later ih =>
    refine ih (fun part member => ?_) (plain_start plain _)
    rcases List.mem_append.mp member with own | after
    · exact notMem_of_mem_splitOn own
    · exact noSlash part (List.mem_cons_of_mem _ after)

end HelixKit.LinkTree
