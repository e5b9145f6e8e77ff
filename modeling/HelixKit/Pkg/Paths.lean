/-
Purpose: Where the cleaned paths of the package manager lead: the names of a path from the
  root or from where it starts, a path joined to a directory, and a path with a suffix.
Trusted boundary: none
-/
import HelixKit.Lib.PosixPath
import HelixKit.Pkg.Archive

namespace HelixKit.Pkg

open PosixPath (Plain)

abbrev Name : Type := List Char

def up : Name := ['.', '.']

/-- `filepath.IsAbs` -/
def isAbs (path : String) : Bool := path.toList.head? = some '/'

/-! ## Cleaning, one name at a time -/

/-- One part of a path, on the names before it, the last one first. -/
def cleanStep (rooted : Bool) (stack : List Name) (part : Name) : List Name :=
  if part = [] ∨ part = ['.'] then stack
  else if part = up then
    match stack with
    | [] => if rooted then [] else [part]
    | last :: below => if last = up then part :: stack else below
  else part :: stack

theorem cleanParts_eq_foldl (rooted : Bool) (parts stack : List Name) :
    cleanParts rooted stack parts = (parts.foldl (cleanStep rooted) stack).reverse := by
  induction parts generalizing stack with
  | nil => rfl
  | cons part rest ih =>
    unfold cleanParts
    rw [List.foldl_cons, cleanStep.eq_def]
    by_cases skipped : part = [] ∨ part = ['.']
    · rw [if_pos skipped, if_pos skipped, ih]
    rw [if_neg skipped, if_neg skipped]
    by_cases above : part = ['.', '.']
    · rw [if_pos above, if_pos (show part = up from above)]
      cases stack with
      | nil => exact ih _
      | cons last below =>
        by_cases same : last = ['.', '.']
        · simp only [same, up, if_true]
          exact ih _
        · simp only [same, up, if_false]
          exact ih _
    · rw [if_neg above, if_neg (show part ≠ up from above), ih]

/-- The names of a cleaned path, the last one first: plain names, and before them nothing but
`..`, which no path from the root has. -/
inductive CleanStack (rooted : Bool) : List Name → Prop
  | ups (count : Nat) (none : rooted = true → count = 0) :
      CleanStack rooted (List.replicate count up)
  | name {stack : List Name} {name : Name} (plain : Plain name) (below : CleanStack rooted stack) :
      CleanStack rooted (name :: stack)

theorem CleanStack.empty (rooted : Bool) : CleanStack rooted [] := .ups 0 fun _ => rfl

variable {rooted : Bool} {stack : List Name}

theorem Plain.ne_up {name : Name} (plain : Plain name) : name ≠ up := plain.parent

theorem cleanStep_plain {name : Name} (plain : Plain name) (stack : List Name) :
    cleanStep rooted stack name = name :: stack := by
  simp [cleanStep, plain.nonempty, plain.here, up, plain.parent]

theorem foldl_cleanStep_plain {more : List Name} (plain : ∀ name ∈ more, Plain name)
    (stack : List Name) : more.foldl (cleanStep rooted) stack = more.reverse ++ stack := by
  induction more generalizing stack with
  | nil => rfl
  | cons name rest ih =>
    have later : ∀ name ∈ rest, Plain name := fun other member =>
      plain other (List.mem_cons_of_mem name member)
    rw [List.foldl_cons, cleanStep_plain (plain name List.mem_cons_self), ih later]
    simp

theorem cleanStep_up_plain {name : Name} (plain : Plain name) (stack : List Name) :
    cleanStep rooted (name :: stack) up = stack := by
  simp [cleanStep, up, plain.parent]

theorem cleanStep_up_ups (count : Nat) :
    cleanStep false (List.replicate count up) up = List.replicate (count + 1) up := by
  cases count with
  | zero => rfl
  | succ count => simp [cleanStep, up, List.replicate_succ]

theorem CleanStack.step (clean : CleanStack rooted stack) {part : Name} (noSlash : '/' ∉ part) :
    CleanStack rooted (cleanStep rooted stack part) := by
  by_cases skipped : part = [] ∨ part = ['.']
  · rwa [cleanStep.eq_def, if_pos skipped]
  · by_cases above : part = up
    · subst above
      cases clean with
      | ups count none =>
        cases rooted with
        | true =>
          rw [none rfl]
          exact .empty true
        | false =>
          rw [cleanStep_up_ups]
          exact .ups _ (by simp)
      | name plain below =>
        rw [cleanStep_up_plain plain]
        exact below
    · have plain : Plain part :=
        ⟨fun empty => skipped (.inl empty), fun dot => skipped (.inr dot), above, noSlash⟩
      rw [cleanStep_plain plain]
      exact .name plain clean

theorem CleanStack.foldl (clean : CleanStack rooted stack) {parts : List Name}
    (noSlash : ∀ part ∈ parts, '/' ∉ part) :
    CleanStack rooted (parts.foldl (cleanStep rooted) stack) := by
  induction parts generalizing stack with
  | nil => exact clean
  | cons part rest ih =>
    exact ih (clean.step (noSlash part List.mem_cons_self)) fun other member =>
      noSlash other (List.mem_cons_of_mem part member)

/-- The names of a cleaned path are left as they are. -/
theorem CleanStack.foldl_reverse (clean : CleanStack rooted stack) :
    stack.reverse.foldl (cleanStep rooted) [] = stack := by
  induction clean with
  | ups count none =>
    rw [List.reverse_replicate]
    induction count with
    | zero => rfl
    | succ count ih =>
      cases rooted with
      | true => cases none rfl
      | false =>
        rw [List.replicate_succ', List.foldl_append, ih (by simp), List.foldl_cons,
          List.foldl_nil, cleanStep_up_ups, ← List.replicate_succ']
  | name plain below ih =>
    rw [List.reverse_cons, List.foldl_append, ih, List.foldl_cons, List.foldl_nil,
      cleanStep_plain plain]

/-- A relative path leads to the same place when it is cleaned first. -/
theorem foldl_relative (parts : List Name) (noSlash : ∀ part ∈ parts, '/' ∉ part)
    {relative : List Name} (clean : CleanStack false relative) (stack : List Name) :
    (relative.reverse ++ parts).foldl (cleanStep rooted) stack =
      (parts.foldl (cleanStep false) relative).reverse.foldl (cleanStep rooted) stack := by
  induction parts generalizing relative with
  | nil => simp
  | cons part rest ih =>
    have stepped := clean.step (noSlash part List.mem_cons_self)
    have later := ih (fun other member => noSlash other (List.mem_cons_of_mem part member)) stepped
    rw [List.foldl_cons, ← later, List.foldl_append, List.foldl_append, List.foldl_cons]
    congr 1
    -- One part: a plain name and the `..` after it cancel.
    by_cases skipped : part = [] ∨ part = ['.']
    · rw [cleanStep.eq_def, cleanStep.eq_def, if_pos skipped, if_pos skipped]
    · by_cases above : part = up
      · subst above
        cases clean with
        | ups count none =>
          rw [cleanStep_up_ups, List.replicate_succ, List.reverse_cons, List.foldl_append,
            List.foldl_cons, List.foldl_nil]
        | name plain below =>
          rw [cleanStep_up_plain plain, List.reverse_cons, List.foldl_append, List.foldl_cons,
            List.foldl_nil, cleanStep_plain plain, cleanStep_up_plain plain]
      · have plain : Plain part := ⟨fun empty => skipped (.inl empty),
          fun dot => skipped (.inr dot), above, noSlash part List.mem_cons_self⟩
        rw [cleanStep_plain plain, cleanStep_plain plain, List.reverse_cons, List.foldl_append,
          List.foldl_cons, List.foldl_nil, cleanStep_plain plain]

/-! ## The text of a cleaned path -/

def renderNames (rooted : Bool) (names : List Name) : List Char :=
  let parts := ['/'].intercalate names
  if rooted then '/' :: parts else if parts = [] then ['.'] else parts

theorem clean_eq (path : String) :
    clean path = .ofList (renderNames (isAbs path) (names path)) := rfl

theorem CleanStack.noSlash (clean : CleanStack rooted stack) :
    ∀ name ∈ stack, '/' ∉ name := by
  induction clean with
  | ups count none =>
    intro name member
    rw [List.eq_of_mem_replicate member]
    decide
  | name plain below ih =>
    intro name member
    rcases List.mem_cons.mp member with rfl | later
    · exact plain.noSlash
    · exact ih name later

theorem CleanStack.nonempty (clean : CleanStack rooted stack) : ∀ name ∈ stack, name ≠ [] := by
  induction clean with
  | ups count none =>
    intro name member
    rw [List.eq_of_mem_replicate member]
    decide
  | name plain below ih =>
    intro name member
    rcases List.mem_cons.mp member with rfl | later
    · exact plain.nonempty
    · exact ih name later

theorem CleanStack.tail {name : Name} (clean : CleanStack rooted (name :: stack)) :
    CleanStack rooted stack := by
  generalize whole : name :: stack = all at clean
  cases clean with
  | ups count none =>
    cases count with
    | zero => cases whole
    | succ count =>
      rw [(List.cons.inj whole).2]
      exact .ups count fun isRooted => absurd (none isRooted) (Nat.succ_ne_zero count)
  | name plain below =>
    rw [(List.cons.inj whole).2]
    exact below

theorem cleanStack_names (path : String) : CleanStack (isAbs path) (names path).reverse := by
  have noSlash : ∀ part ∈ path.toList.splitOn '/', '/' ∉ part :=
    fun _ member => PosixPath.notMem_of_mem_splitOn member
  have clean := (CleanStack.empty (isAbs path)).foldl noSlash
  rw [names, cleanParts_eq_foldl, List.reverse_reverse]
  exact clean

theorem names_ofList {text : List Char} :
    names (.ofList text) =
      ((text.splitOn '/').foldl (cleanStep (text.head? = some '/')) []).reverse := by
  rw [names, cleanParts_eq_foldl, String.toList_ofList]

/-- A cleaned path has the names it is written with. -/
theorem names_render {rooted : Bool} {parts : List Name} (clean : CleanStack rooted parts.reverse) :
    isAbs (.ofList (renderNames rooted parts)) = rooted ∧
      names (.ofList (renderNames rooted parts)) = parts := by
  have again : parts.foldl (cleanStep rooted) [] = parts.reverse := by
    have whole := clean.foldl_reverse
    rwa [List.reverse_reverse] at whole
  have noSlash : ∀ part ∈ parts, '/' ∉ part := fun part member =>
    clean.noSlash part (List.mem_reverse.mpr member)
  rw [isAbs, names_ofList, String.toList_ofList]
  cases rooted with
  | true =>
    refine ⟨rfl, ?_⟩
    have root := List.splitOn_append_cons_self (a := '/') [] (['/'].intercalate parts)
    rw [List.nil_append] at root
    rw [renderNames, if_pos rfl, root]
    by_cases empty : parts = []
    · subst empty
      rfl
    · rw [List.splitOn_intercalate _ noSlash empty, List.splitOn_nil]
      change (parts.foldl (cleanStep true) []).reverse = parts
      rw [again, List.reverse_reverse]
  | false =>
    by_cases empty : parts = []
    · subst empty
      exact ⟨rfl, rfl⟩
    · obtain ⟨first, rest, rfl⟩ := List.exists_cons_of_ne_nil empty
      obtain ⟨c, more, rfl⟩ := List.exists_cons_of_ne_nil
        (clean.nonempty first (List.mem_reverse.mpr List.mem_cons_self))
      have notSlash : c ≠ '/' := fun same =>
        noSlash _ List.mem_cons_self (same ▸ List.mem_cons_self)
      obtain ⟨tail, starts⟩ : ∃ tail, ['/'].intercalate ((c :: more) :: rest) = c :: tail := by
        cases rest with
        | nil => exact ⟨more, by simp⟩
        | cons second others =>
          rw [List.intercalate_cons_of_ne_nil (by simp)]
          exact ⟨_, rfl⟩
      have written : renderNames false ((c :: more) :: rest) =
          ['/'].intercalate ((c :: more) :: rest) := by
        simp [renderNames, starts]
      have relative : decide ((c :: tail).head? = some '/') = false := by
        simp [notSlash]
      refine ⟨?_, ?_⟩
      · rw [written, starts]
        exact relative
      · rw [written, List.splitOn_intercalate _ noSlash empty, starts, relative, again,
          List.reverse_reverse]

theorem isAbs_clean (path : String) : isAbs (clean path) = isAbs path := by
  have clean : CleanStack (isAbs path) (names path).reverse := cleanStack_names path
  exact (names_render clean).1

@[simp] theorem names_clean (path : String) : names (clean path) = names path := by
  have clean : CleanStack (isAbs path) (names path).reverse := cleanStack_names path
  exact (names_render clean).2

theorem CleanStack.plain (cleaned : CleanStack true stack) : ∀ name ∈ stack, Plain name := by
  induction cleaned with
  | ups count none =>
    rw [none rfl]
    simp
  | name plain below ih =>
    intro name member
    rcases List.mem_cons.mp member with rfl | later
    · exact plain
    · exact ih name later

/-- A path from the root has plain names. -/
theorem plain_names {path : String} (abs : isAbs path = true) : ∀ name ∈ names path, Plain name := by
  have cleaned : CleanStack true (names path).reverse := abs ▸ cleanStack_names path
  exact fun name member => cleaned.plain name (List.mem_reverse.mpr member)

/-! ## Joined paths -/

theorem isAbs_append {dir : String} (some_ : dir ≠ "") (name : String) :
    isAbs (dir ++ "/" ++ name) = isAbs dir := by
  obtain ⟨c, rest, chars⟩ : ∃ c rest, dir.toList = c :: rest :=
    List.exists_cons_of_ne_nil fun empty => some_ (String.toList_eq_nil_iff.mp empty)
  simp [isAbs, chars]

theorem names_append (dir name : String) (some_ : dir ≠ "") :
    names (dir ++ "/" ++ name) =
      ((name.toList.splitOn '/').foldl (cleanStep (isAbs dir)) (names dir).reverse).reverse := by
  have slash : "/".toList = ['/'] := rfl
  have text : (dir ++ "/" ++ name).toList = dir.toList ++ '/' :: name.toList := by
    simp [slash]
  have abs : decide ((dir ++ "/" ++ name).toList.head? = some '/') = isAbs dir :=
    isAbs_append some_ name
  rw [names, abs, text, List.splitOn_append_cons_self, cleanParts_eq_foldl, List.foldl_append, names,
    cleanParts_eq_foldl, List.reverse_reverse]
  rfl

/-- The names of a path that is taken as relative. -/
def relativeNames (path : String) : List Name := cleanParts false [] (path.toList.splitOn '/')

theorem names_join {dir : String} (some_ : dir ≠ "") (name : String) :
    names (join dir name) =
      ((relativeNames name).foldl (cleanStep (isAbs dir)) (names dir).reverse).reverse := by
  have noSlash : ∀ part ∈ name.toList.splitOn '/', '/' ∉ part :=
    fun _ member => PosixPath.notMem_of_mem_splitOn member
  have cleaned : (name.toList.splitOn '/').foldl (cleanStep (isAbs dir)) (names dir).reverse = _ :=
    foldl_relative _ noSlash (.empty false) (names dir).reverse
  rw [join, names_clean, names_append dir name some_, relativeNames, cleanParts_eq_foldl, ← cleaned]

theorem isAbs_join {dir : String} (some_ : dir ≠ "") (name : String) :
    isAbs (join dir name) = isAbs dir := by
  rw [join, isAbs_clean, isAbs_append some_]

variable {host : Host}

/-- The root is one of the whole system, not of the current directory. -/
def Host.isRooted (host : Host) : Bool := host.root = "" || isAbs host.root

theorem isAbs_rootJoin {f : String} (abs : isAbs f = true) :
    isAbs (host.rootJoin f) = host.isRooted := by
  unfold Host.rootJoin Host.isRooted
  by_cases empty : host.root = ""
  · rw [if_pos empty, isAbs_clean, abs, empty]
    rfl
  · rw [if_neg empty, isAbs_clean, isAbs_append empty]
    simp [empty]

/-- A path on the device is below the root, by the names it has from its own root. -/
theorem names_rootJoin {f : String} (abs : isAbs f = true) :
    names (host.rootJoin f) = names host.root ++ names f := by
  unfold Host.rootJoin
  by_cases empty : host.root = ""
  · rw [if_pos empty, names_clean, empty]
    rfl
  have plain : ∀ name ∈ names f, Plain name := plain_names abs
  have text : (clean f).toList.splitOn '/' = [] :: (['/'].intercalate (names f)).splitOn '/' := by
    have root := List.splitOn_append_cons_self (a := '/') [] (['/'].intercalate (names f))
    rw [List.nil_append] at root
    rw [clean_eq, abs, String.toList_ofList, renderNames, if_pos rfl, root]
    rfl
  rw [if_neg empty, names_clean, names_append _ _ empty, text]
  by_cases none : names f = []
  · rw [none]
    simp [cleanStep]
  rw [List.splitOn_intercalate _ (fun name member => (plain name member).noSlash) none,
    List.foldl_cons]
  change ((names f).foldl (cleanStep (isAbs host.root)) (names host.root).reverse).reverse = _
  rw [foldl_cleanStep_plain plain]
  simp

/-! ## A suffix -/

theorem Plain.append {name : Name} (some_ : name ≠ []) (noSlash : '/' ∉ name) {suffix : Name}
    (long : 2 ≤ suffix.length) (plain : '/' ∉ suffix) : Plain (name ++ suffix) := by
  have length : 3 ≤ (name ++ suffix).length := by
    have := List.length_pos_of_ne_nil some_
    rw [List.length_append]
    omega
  refine ⟨fun same => ?_, fun same => ?_, fun same => ?_, ?_⟩
  · simp [same] at length
  · simp [same] at length
  · simp [same] at length
  · simp [noSlash, plain]

theorem render_concat (rooted : Bool) (before : List Name) {last : Name} (some_ : last ≠ [])
    (suffix : Name) :
    renderNames rooted (before ++ [last]) ++ suffix = renderNames rooted (before ++ [last ++ suffix]) := by
  have joined := (List.cons.inj (PosixPath.render_concat before last suffix)).2
  have written : ∀ {name : Name}, name ≠ [] → ['/'].intercalate (before ++ [name]) ≠ [] := by
    intro name nonempty nothing
    cases before with
    | nil => exact nonempty (by simpa using nothing)
    | cons first rest =>
      rw [List.cons_append, List.intercalate_cons_of_ne_nil (by simp)] at nothing
      simp at nothing
  cases rooted with
  | true => simp [renderNames, ← joined]
  | false => simp [renderNames, written some_, ← joined]

variable {path suffix : String}

/-- A suffix of a cleaned path goes to its last name. -/
theorem names_clean_append {before : List Name} {last : Name} (whole : names path = before ++ [last])
    (long : 2 ≤ suffix.toList.length) (plain : '/' ∉ suffix.toList) :
    isAbs (clean path ++ suffix) = isAbs path ∧
      names (clean path ++ suffix) = before ++ [last ++ suffix.toList] := by
  have clean : CleanStack (isAbs path) (last :: before.reverse) := by
    have all := cleanStack_names path
    rwa [whole, List.reverse_append] at all
  have some_ : last ≠ [] := clean.nonempty last List.mem_cons_self
  have noSlash : '/' ∉ last := clean.noSlash last List.mem_cons_self
  have text : Pkg.clean path ++ suffix =
      .ofList (renderNames (isAbs path) (before ++ [last ++ suffix.toList])) := by
    rw [clean_eq, whole, ← render_concat _ _ some_, String.ofList_append, String.ofList_toList]
  have longer : CleanStack (isAbs path) (before ++ [last ++ suffix.toList]).reverse := by
    rw [List.reverse_append]
    exact .name (Plain.append some_ noSlash long plain) clean.tail
  rw [text]
  exact names_render longer

/-- A suffix of the root, or of the current directory, makes one name. -/
theorem names_clean_append_nil (none : names path = []) (long : 3 ≤ suffix.toList.length)
    (plain : '/' ∉ suffix.toList) :
    isAbs (clean path ++ suffix) = isAbs path ∧
      ∃ name, Plain name ∧ names (clean path ++ suffix) = [name] := by
  have text : clean path ++ suffix = .ofList (renderNames (isAbs path) [] ++ suffix.toList) := by
    rw [clean_eq, none, String.ofList_append, String.ofList_toList]
  have nonempty : suffix.toList ≠ [] := by
    intro empty
    simp [empty] at long
  have single : ∀ {name : Name}, Plain name → CleanStack (isAbs path) [name].reverse :=
    fun isPlain => .name isPlain (.empty _)
  cases abs : isAbs path with
  | true =>
    have isPlain : Plain suffix.toList := by
      refine ⟨nonempty, fun same => ?_, fun same => ?_, plain⟩
      · simp [same] at long
      · simp [same] at long
    have written : renderNames true [] ++ suffix.toList = renderNames true [suffix.toList] := by
      simp [renderNames]
    rw [text, abs, written]
    have rendered := names_render (abs ▸ single isPlain)
    exact ⟨rendered.1, _, isPlain, rendered.2⟩
  | false =>
    have isPlain : Plain (['.'] ++ suffix.toList) := Plain.append (by simp) (by decide) (by omega) plain
    have written : renderNames false [] ++ suffix.toList =
        renderNames false [['.'] ++ suffix.toList] := by
      simp [renderNames]
    rw [text, abs, written]
    have rendered := names_render (abs ▸ single isPlain)
    exact ⟨rendered.1, _, isPlain, rendered.2⟩

end HelixKit.Pkg
