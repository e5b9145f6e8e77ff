/-
Purpose: Where the unit of a service stands in the unit directory, and what writing it changes.
Trusted boundary: none
-/
import HelixKit.Runtime.Units

namespace HelixKit.Runtime

open HelixKit.FileTree HelixKit.PosixPath
open HelixKit.Pkg (ServiceDescriptor)

/-! ## Places of units -/

theorem slash_unitName (d : ServiceDescriptor) :
    '/' ∈ (unitName d).toList ↔ '/' ∈ d.name.toList := by
  rw [toList_unitName]
  simp

/-- The pattern matches the names of units of services whose own name is one of a file. -/
theorem managed_iff {name : Path} : managed name = true ↔
    ∃ service, '/' ∉ service ∧ name = "helix-".toList ++ service ++ ".service".toList := by
  unfold managed
  simp only [Bool.and_eq_true, decide_eq_true_eq, List.isPrefixOf_iff_prefix,
    List.isSuffixOf_iff_suffix, Bool.not_eq_true', List.contains_eq_mem, decide_eq_false_iff_not]
  constructor
  · rintro ⟨⟨⟨long, rest, rfl⟩, atEnd⟩, slash⟩
    have short : ".service".toList.length ≤ rest.length := by
      simp only [List.length_append] at long
      have parts : "helix-".toList.length = 6 ∧ ".service".toList.length = 8 := by decide
      omega
    obtain ⟨service, rfl⟩ : ".service".toList <:+ rest :=
      List.suffix_of_suffix_length_le atEnd (List.suffix_append _ _) short
    refine ⟨service, fun member => slash ?_, by rw [List.append_assoc]⟩
    simp [member]
  · rintro ⟨service, slash, rfl⟩
    refine ⟨⟨⟨?_, ?_⟩, ?_⟩, ?_⟩
    · simp only [List.length_append]
      have parts : "helix-".toList.length = 6 ∧ ".service".toList.length = 8 := by decide
      omega
    · rw [List.append_assoc]
      exact List.prefix_append _ _
    · exact List.suffix_append _ _
    · simp [slash]

theorem managed_unitName {d : ServiceDescriptor} (slash : '/' ∉ d.name.toList) :
    managed (unitName d).toList = true :=
  managed_iff.mpr ⟨_, slash, toList_unitName d⟩

theorem plain_of_managed {name : Path} (ours : managed name = true) : Plain name := by
  obtain ⟨service, slash, rfl⟩ := managed_iff.mp ours
  refine ⟨?_, ?_, ?_, ?_⟩
  · simp
  · simp
  · simp
  · simp [slash]

theorem unitToService_of_managed {unit : String} (ours : managed unit.toList = true) :
    "helix-" ++ unitToService unit ++ ".service" = unit := by
  obtain ⟨service, -, shape⟩ := managed_iff.mp ours
  apply String.toList_inj.mp
  have cut : unitToService unit = .ofList service := by
    have rest : unit.toList.drop 6 = service ++ ".service".toList := by
      rw [shape, List.append_assoc]
      exact List.drop_left' (by decide)
    have front : "helix-".toList.isPrefixOf unit.toList = true := by
      rw [List.isPrefixOf_iff_prefix, shape, List.append_assoc]
      exact List.prefix_append _ _
    have back : ".service".toList.isSuffixOf (service ++ ".service".toList) = true := by
      rw [List.isSuffixOf_iff_suffix]
      exact List.suffix_append _ _
    simp only [unitToService, front, if_true, rest, back]
    rw [List.length_append, show ".service".toList.length = 8 by decide, Nat.add_sub_cancel,
      List.take_left' rfl]
  rw [cut, shape]
  simp

/-- A name without a separator is one entry of the directory. -/
theorem joinUnit_of_plain {dir : Place} (plain : ∀ name ∈ dir, Plain name) {unit : String}
    (entry : Plain unit.toList) : joinUnit dir unit = dir ++ [unit.toList] := by
  have single : unit.toList.splitOn '/' = [unit.toList] := by
    simpa using @List.splitOn_intercalate _ [unit.toList] _ _ '/' (by simpa using entry.noSlash)
      (by simp)
  rw [joinUnit, locate_append, locate_render plain, single, List.foldl_cons, List.foldl_nil,
    entry.enter]

variable {dir : Place} {tree : Tree} {d : ServiceDescriptor}

theorem unitPath_eq (plain : ∀ name ∈ dir, Plain name) (slash : '/' ∉ d.name.toList) :
    unitPath dir d = dir ++ [(unitName d).toList] :=
  joinUnit_of_plain plain (plain_of_managed (managed_unitName slash))

/-- Where a unit is written first. -/
def tmpName (d : ServiceDescriptor) : Path := (unitName d).toList ++ ".tmp".toList

theorem tmpPath_eq (plain : ∀ name ∈ dir, Plain name) (slash : '/' ∉ d.name.toList) :
    tmpPath (unitPath dir d) = dir ++ [tmpName d] := by
  have entry : Plain (tmpName d) := by
    refine ⟨?_, ?_, ?_, ?_⟩
    · simp [tmpName, toList_unitName]
    · simp [tmpName, toList_unitName]
    · simp [tmpName, toList_unitName]
    · simp [tmpName, slash_unitName, slash]
  rw [unitPath_eq plain slash, tmpPath, render_concat]
  apply locate_render
  intro name member
  rcases List.mem_append.mp member with above | last
  · exact plain name above
  · rw [List.mem_singleton.mp last]
    exact entry

theorem not_managed_tmpName (d : ServiceDescriptor) : managed (tmpName d) = false := by
  have ending : ¬ ".service".toList <:+ (unitName d).toList ++ ".tmp".toList := by
    intro atEnd
    have four : ".tmp".toList <:+ ".service".toList :=
      List.suffix_of_suffix_length_le (List.suffix_append _ _) atEnd (by decide)
    exact absurd four (by decide)
  have answer : ".service".toList.isSuffixOf (tmpName d) = false := by
    rw [Bool.eq_false_iff]
    intro atEnd
    exact ending (List.isSuffixOf_iff_suffix.mp atEnd)
  simp only [managed, answer, Bool.and_false, Bool.false_and]

theorem tmpName_inj {a b : ServiceDescriptor} (same : tmpName a = tmpName b) : a.name = b.name :=
  unitName_inj (String.toList_inj.mp (List.append_cancel_right same))

theorem tmpName_ne_unitName {a b : ServiceDescriptor} (slash : '/' ∉ b.name.toList) :
    tmpName a ≠ (unitName b).toList := by
  intro same
  have ours := managed_unitName slash
  rw [← same, not_managed_tmpName] at ours
  cases ours

/-! ## What stays -/

/-- Only the owned entries of the directory have changed, and directories have been made. -/
structure Kept (dir : Place) (own : Set Path) (before after : Tree) : Prop where
  entries : ∀ name, name ∉ own → after.get (dir ++ [name]) = before.get (dir ++ [name])
  files : ∀ place, (∀ name ∈ own, place ≠ dir ++ [name]) → ∀ content,
    after.get place = some (.file content) ↔ before.get place = some (.file content)

variable {own more : Set Path} {before between after : Tree}

theorem Kept.refl : Kept dir own tree tree := ⟨fun _ _ => rfl, fun _ _ _ => Iff.rfl⟩

theorem Kept.mono (kept : Kept dir own before after) (larger : own ⊆ more) :
    Kept dir more before after where
  entries name outside := kept.entries name fun inside => outside (larger inside)
  files place outside := kept.files place fun name inside => outside name (larger inside)

theorem Kept.trans (first : Kept dir own before between) (second : Kept dir own between after) :
    Kept dir own before after where
  entries name outside := (second.entries name outside).trans (first.entries name outside)
  files place outside content :=
    (second.files place outside content).trans (first.files place outside content)

theorem Kept.erase (name : Path) : Kept dir {name} tree (tree.erase (dir ++ [name])) where
  entries other outside := by
    have apart : dir ++ [other] ≠ dir ++ [name] := by
      simpa using outside
    rw [Tree.get_erase, if_neg apart]
  files place outside content := by
    rw [Tree.get_erase, if_neg (outside name rfl)]

theorem Kept.put (name : Path) (node : Node) :
    Kept dir {name} tree (tree.put (dir ++ [name]) node) where
  entries other outside := by
    have apart : dir ++ [other] ≠ dir ++ [name] := by
      simpa using outside
    rw [Tree.get_put, if_neg apart]
  files place outside content := by
    rw [Tree.get_put, if_neg (outside name rfl)]

theorem Kept.mkdirAll (made : tree.mkdirAll dir = some after) : Kept dir own tree after where
  entries name _ := Tree.mkdirAll_get made fun beneath => by
    have short := beneath.length_le
    rw [List.length_append, List.length_singleton] at short
    omega
  files _ _ _ := Tree.mkdirAll_file made

/-- A link that leads out of the directory leads to what it led to. -/
theorem Kept.read (kept : Kept dir own before after) {name : Path} (outside : name ∉ own)
    (outward : ∀ target, before.get (dir ++ [name]) = some (.link target) → ¬ dir <+: target) :
    after.read (dir ++ [name]) = before.read (dir ++ [name]) := by
  have same := kept.entries name outside
  have follows : after.follow (dir ++ [name]) = before.follow (dir ++ [name]) := by
    rw [Tree.follow, Tree.follow, same]
  have apart : ∀ other ∈ own, before.follow (dir ++ [name]) ≠ dir ++ [other] := by
    intro other owned at_
    unfold Tree.follow at at_
    split at at_
    next target link =>
      exact outward target link (at_ ▸ List.prefix_append dir [other])
    · obtain rfl : name = other := by simpa using at_
      exact outside owned
  apply Option.ext
  intro content
  rw [Tree.read_iff, Tree.read_iff, follows]
  exact kept.files _ apart content

/-! ## Writing a unit -/

/-- A unit that has to be written is not written through a symbolic link. -/
def Direct (dir : Place) (tree : Tree) (d : ServiceDescriptor) : Prop :=
  tree.read (unitPath dir d) ≠ some (renderUnit d) →
    ∀ target, tree.get (tmpPath (unitPath dir d)) ≠ some (.link target)

/-- A symbolic link at the unit, or where it is written first, leads out of the directory. -/
def Outward (dir : Place) (tree : Tree) (d : ServiceDescriptor) : Prop :=
  ∀ target, tree.get (unitPath dir d) = some (.link target) ∨
    tree.get (tmpPath (unitPath dir d)) = some (.link target) → ¬ dir <+: target

theorem writeUnit_cases {wrote : Bool} (returned : (writeUnit dir tree d).result = some wrote) :
    (tree.read (unitPath dir d) = some (renderUnit d) ∧
      writeUnit dir tree d = { tree, events := [], result := some false }) ∨
    (tree.read (unitPath dir d) ≠ some (renderUnit d) ∧ ∃ made written renamed,
      tree.mkdirAll (unitPath dir d).dropLast = some made ∧
      made.write (tmpPath (unitPath dir d)) (renderUnit d) = some written ∧
      written.rename (tmpPath (unitPath dir d)) (unitPath dir d) = some renamed ∧
      writeUnit dir tree d =
        { tree := renamed
          events := [.wrote (made.follow (tmpPath (unitPath dir d))), .renamed (unitPath dir d)]
          result := some true }) := by
  by_cases current : tree.read (unitPath dir d) = some (renderUnit d)
  · exact .inl ⟨current, by simp [writeUnit, current]⟩
  · right
    cases made : tree.mkdirAll (unitPath dir d).dropLast with
    | none => simp [writeUnit, current, made] at returned
    | some inside =>
      cases written : inside.write (tmpPath (unitPath dir d)) (renderUnit d) with
      | none => simp [writeUnit, current, made, written] at returned
      | some full =>
        cases renamed : full.rename (tmpPath (unitPath dir d)) (unitPath dir d) with
        | none => simp [writeUnit, current, made, written, renamed] at returned
        | some last =>
          exact ⟨current, inside, full, last, rfl, written, renamed,
            by simp [writeUnit, current, made, written, renamed]⟩

/-- The entries that are written for a service. -/
def entriesOf (d : ServiceDescriptor) : Set Path := {tmpName d, (unitName d).toList}

/-- A unit that is written directly is a file of its own afterwards. -/
structure Wrote (dir : Place) (d : ServiceDescriptor) (before after : Tree) : Prop where
  unit : after.get (unitPath dir d) = some (.file (renderUnit d))
  tmp : after.get (tmpPath (unitPath dir d)) = none
  kept : Kept dir (entriesOf d) before after

theorem writeUnit_direct (plain : ∀ name ∈ dir, Plain name) (slash : '/' ∉ d.name.toList)
    (direct : Direct dir tree d) {wrote : Bool}
    (returned : (writeUnit dir tree d).result = some wrote) :
    (tree.read (unitPath dir d) = some (renderUnit d) ∧
      writeUnit dir tree d = { tree, events := [], result := some false }) ∨
    (Wrote dir d tree (writeUnit dir tree d).tree ∧ (writeUnit dir tree d).events =
      [.wrote (tmpPath (unitPath dir d)), .renamed (unitPath dir d)]) := by
  rcases writeUnit_cases returned with same | ⟨stale, made, written, renamed, making, writing,
    moved, whole⟩
  · exact .inl same
  right
  have path := unitPath_eq plain slash
  have tmp := tmpPath_eq plain slash
  rw [path, List.dropLast_concat] at making
  have keptMade : Kept dir (entriesOf d) tree made := Kept.mkdirAll making
  have noLink : ∀ target, made.get (tmpPath (unitPath dir d)) ≠ some (.link target) := by
    intro target
    have there : made.get (tmpPath (unitPath dir d)) = tree.get (tmpPath (unitPath dir d)) := by
      rw [tmp]
      exact (show Kept dir ∅ tree made from Kept.mkdirAll making).entries _ (Set.notMem_empty _)
    rw [there]
    exact direct stale target
  have stays : made.follow (tmpPath (unitPath dir d)) = tmpPath (unitPath dir d) :=
    Tree.follow_of_not_link noLink
  have full := Tree.write_eq writing
  rw [stays] at full
  have there : written.get (tmpPath (unitPath dir d)) = some (.file (renderUnit d)) := by
    rw [full, Tree.get_put, if_pos rfl]
  have last := Tree.rename_eq moved there
  have apart : tmpPath (unitPath dir d) ≠ unitPath dir d := by
    rw [tmp, path]
    intro same
    exact tmpName_ne_unitName slash (by simpa using same)
  rw [whole]
  refine ⟨⟨?_, ?_, ?_⟩, by rw [stays]⟩
  · rw [last, Tree.get_put, if_pos rfl]
  · rw [last, Tree.get_put, if_neg apart, Tree.get_erase, if_pos rfl]
  · have putTmp : Kept dir (entriesOf d) made written := by
      rw [full, tmp]
      exact (Kept.put _ _).mono (by simp [entriesOf])
    have eraseTmp : Kept dir (entriesOf d) written (written.erase (tmpPath (unitPath dir d))) := by
      rw [tmp]
      exact (Kept.erase _).mono (by simp [entriesOf])
    have putUnit : Kept dir (entriesOf d) (written.erase (tmpPath (unitPath dir d))) renamed := by
      rw [last, path]
      exact (Kept.put _ _).mono (by simp [entriesOf])
    exact ((keptMade.trans putTmp).trans eraseTmp).trans putUnit

/-- A unit that is written through a link is written where the link leads. -/
theorem writeUnit_through (plain : ∀ name ∈ dir, Plain name) (slash : '/' ∉ d.name.toList)
    (stale : tree.read (unitPath dir d) ≠ some (renderUnit d)) {target : Place}
    (link : tree.get (tmpPath (unitPath dir d)) = some (.link target)) {wrote : Bool}
    (returned : (writeUnit dir tree d).result = some wrote) :
    .wrote target ∈ (writeUnit dir tree d).events := by
  rcases writeUnit_cases returned with ⟨current, -⟩ | ⟨-, made, written, renamed, making, -, -, whole⟩
  · exact absurd current stale
  rw [unitPath_eq plain slash, List.dropLast_concat] at making
  have there : made.get (tmpPath (unitPath dir d)) = some (.link target) := by
    rw [← link, tmpPath_eq plain slash]
    exact (show Kept dir ∅ tree made from Kept.mkdirAll making).entries _ (Set.notMem_empty _)
  rw [whole, Tree.follow, there]
  exact List.mem_cons_self

end HelixKit.Runtime
