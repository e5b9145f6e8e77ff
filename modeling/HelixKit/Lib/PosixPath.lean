/-
Purpose: Absolute paths of a POSIX system, where they lead to by their text alone, and
  their normal form.
Trusted boundary: none
-/
import HelixKit.Lib.Separator
import Mathlib.Data.List.Basic

namespace HelixKit.PosixPath

abbrev Path : Type := List Char

/-- A name that a directory can have an entry of. -/
structure Plain (name : Path) : Prop where
  nonempty : name ≠ []
  here : name ≠ ['.']
  parent : name ≠ ['.', '.']
  noSlash : '/' ∉ name

/-- One segment of a path, from the directory that the names lead to. -/
def enter (names : List Path) (segment : Path) : List Path :=
  if segment = [] ∨ segment = ['.'] then names
  else if segment = ['.', '.'] then names.dropLast
  else names ++ [segment]

/-- The names from the root that an absolute path leads to. -/
def locate (path : Path) : List Path := (path.splitOn '/').foldl enter []

/-- The normal form of the path that these names lead to. -/
def render (names : List Path) : Path := '/' :: ['/'].intercalate names

theorem Plain.enter {name : Path} (plain : Plain name) (names : List Path) :
    enter names name = names ++ [name] := by
  simp [PosixPath.enter, plain.nonempty, plain.here, plain.parent]

theorem foldl_enter_plain {more : List Path} (plain : ∀ name ∈ more, Plain name)
    (names : List Path) : more.foldl enter names = names ++ more := by
  induction more generalizing names with
  | nil => simp
  | cons name rest ih =>
    have later : ∀ name ∈ rest, Plain name := fun other member =>
      plain other (List.mem_cons_of_mem name member)
    rw [List.foldl_cons, (plain name List.mem_cons_self).enter, ih later, List.append_assoc]
    rfl

theorem plain_enter {names : List Path} (plain : ∀ name ∈ names, Plain name) {segment : Path}
    (noSlash : '/' ∉ segment) : ∀ name ∈ enter names segment, Plain name := by
  intro name member
  unfold enter at member
  split at member
  · exact plain name member
  rename_i named
  split at member
  · exact plain name (List.dropLast_subset _ member)
  rename_i down
  rcases List.mem_append.mp member with old | new
  · exact plain name old
  · rw [List.mem_singleton.mp new]
    exact ⟨fun empty => named (.inl empty), fun dot => named (.inr dot), down, noSlash⟩

theorem plain_foldl_enter {segments : List Path} (noSlash : ∀ segment ∈ segments, '/' ∉ segment)
    {names : List Path} (plain : ∀ name ∈ names, Plain name) :
    ∀ name ∈ segments.foldl enter names, Plain name := by
  induction segments generalizing names with
  | nil => exact plain
  | cons segment rest ih =>
    apply ih fun other member => noSlash other (List.mem_cons_of_mem segment member)
    exact plain_enter plain (noSlash segment List.mem_cons_self)

theorem notMem_of_mem_splitOn {path segment : Path} (member : segment ∈ path.splitOn '/') :
    '/' ∉ segment :=
  Separator.notMem_of_mem_splitOn member

theorem plain_locate (path : Path) : ∀ name ∈ locate path, Plain name :=
  plain_foldl_enter (fun _ => notMem_of_mem_splitOn) (by simp)

/-- A relative path is taken from where the path before it leads. -/
theorem locate_append (path more : Path) :
    locate (path ++ '/' :: more) = (more.splitOn '/').foldl enter (locate path) := by
  rw [locate, List.splitOn_append_cons_self, List.foldl_append]
  rfl

theorem splitOn_render {names : List Path} (plain : ∀ name ∈ names, Plain name)
    (some_ : names ≠ []) : (render names).splitOn '/' = [] :: names := by
  have root := List.splitOn_append_cons_self (a := '/') [] (['/'].intercalate names)
  rw [List.nil_append] at root
  rw [render, root, List.splitOn_intercalate _ (fun name member => (plain name member).noSlash) some_]
  rfl

theorem locate_render {names : List Path} (plain : ∀ name ∈ names, Plain name) :
    locate (render names) = names := by
  by_cases empty : names = []
  · subst empty
    rfl
  · rw [locate, splitOn_render plain empty, List.foldl_cons]
    exact foldl_enter_plain plain _

theorem render_inj {names others : List Path} (plain : ∀ name ∈ names, Plain name)
    (plainToo : ∀ name ∈ others, Plain name) (same : render names = render others) :
    names = others := by
  rw [← locate_render plain, same, locate_render plainToo]

/-- A path that goes on where another one ends leads beneath it. -/
theorem prefix_of_render {base full : List Path} (plain : ∀ name ∈ base, Plain name)
    (plainToo : ∀ name ∈ full, Plain name) (longer : render base ++ ['/'] <+: render full) :
    base <+: full := by
  by_cases empty : base = []
  · subst empty
    exact List.nil_prefix
  obtain ⟨rest, whole⟩ := longer
  rw [List.append_assoc, List.singleton_append] at whole
  have segments := congrArg (List.splitOn '/') whole
  by_cases root : full = []
  · subst root
    have short := congrArg List.length whole
    simp [render, List.intercalate] at short
  rw [List.splitOn_append_cons_self, splitOn_render plain empty, splitOn_render plainToo root,
    List.cons_append] at segments
  exact ⟨_, (List.cons.inj segments).2⟩

/-- A text at the end of a path goes to the last name. -/
theorem render_concat (names : List Path) (last suffix : Path) :
    render (names ++ [last]) ++ suffix = render (names ++ [last ++ suffix]) := by
  have joined : ['/'].intercalate (names ++ [last]) ++ suffix =
      ['/'].intercalate (names ++ [last ++ suffix]) := by
    induction names with
    | nil => simp
    | cons name rest ih =>
      simp only [List.cons_append]
      rw [List.intercalate_cons_of_ne_nil (by simp), List.intercalate_cons_of_ne_nil (by simp),
        List.append_assoc, ih]
  rw [render, render, List.cons_append, joined]

end HelixKit.PosixPath
