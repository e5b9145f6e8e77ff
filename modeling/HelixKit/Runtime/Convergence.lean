/-
Purpose: What the unit directory holds once the runtime manager has reconciled it, and what it does
  when it reconciles it again.
Trusted boundary: none
Main exports: slash_diverges
-/
import HelixKit.Runtime.UnitFiles

namespace HelixKit.Runtime

open HelixKit.FileTree HelixKit.PosixPath
open HelixKit.Pkg (ServiceDescriptor)

/-! ## The property -/

/-- The manager's files in the unit directory are the units of the services. -/
def Exact (dir : Place) (services : List ServiceDescriptor) (tree : Tree) : Prop :=
  (∀ name, managed name = true → (tree.get (dir ++ [name])).isSome →
    ∃ d ∈ services, (unitName d).toList = name) ∧
  ∀ d ∈ services, '/' ∉ (unitName d).toList ∧
    tree.read (dir ++ [(unitName d).toList]) = some (renderUnit d)

/-- Files are written and renamed in the directory only. -/
def Inside (dir : Place) (events : List Event) : Prop :=
  ∀ place, .wrote place ∈ events ∨ .renamed place ∈ events → ∃ name, place = dir ++ [name]

/-- No unit file is written or removed, and systemd does not reload. -/
def Quiet (events : List Event) : Prop :=
  .daemonReload ∉ events ∧ ∀ place, .wrote place ∉ events ∧ .renamed place ∉ events ∧
    .removed place ∉ events

/-- The units are exact, nothing was written elsewhere, and the manager would leave it at that. -/
def Converged (dir : Place) (services : List ServiceDescriptor) (outcome : Outcome Unit) : Prop :=
  Exact dir services outcome.tree ∧ Inside dir outcome.events ∧
    ∀ sd, Quiet (reconcile dir sd services outcome.tree).events

/-! ## The condition -/

/-- Names are names of files, and services of one name have one unit. -/
def Safe (services : List ServiceDescriptor) : Prop :=
  (∀ d ∈ services, '/' ∉ d.name.toList) ∧
  ∀ a ∈ services, ∀ b ∈ services, a.name = b.name → renderUnit a = renderUnit b

variable {dir : Place} {tree before between after : Tree} {d : ServiceDescriptor}

/-! ## What a written unit means for the other services -/

theorem paths_of_name {a b : ServiceDescriptor} (same : a.name = b.name) :
    unitPath dir a = unitPath dir b := by
  rw [unitPath, unitPath, unitName, unitName, same]

variable {other : ServiceDescriptor}

theorem entries_apart (slash : '/' ∉ d.name.toList) (slashToo : '/' ∉ other.name.toList)
    (apart : other.name ≠ d.name) :
    (unitName other).toList ∉ entriesOf d ∧ tmpName other ∉ entriesOf d := by
  refine ⟨?_, ?_⟩
  · rintro (tmp | unit)
    · exact tmpName_ne_unitName slashToo tmp.symm
    · exact apart (unitName_inj (String.toList_inj.mp unit))
  · rintro (tmp | unit)
    · exact apart (tmpName_inj tmp)
    · exact tmpName_ne_unitName slash unit

/-- A service of another name is where it was. -/
theorem Wrote.apart (plain : ∀ name ∈ dir, Plain name) (written : Wrote dir d before after)
    (slash : '/' ∉ d.name.toList) (slashToo : '/' ∉ other.name.toList)
    (apart : other.name ≠ d.name) (outward : Outward dir before other) :
    (Direct dir after other ↔ Direct dir before other) ∧ Outward dir after other := by
  obtain ⟨unit, tmp⟩ := entries_apart slash slashToo apart
  have sameUnit := written.kept.entries _ unit
  have sameTmp := written.kept.entries _ tmp
  have sameRead := written.kept.read unit fun target link =>
    outward target (.inl (by rw [unitPath_eq plain slashToo, link]))
  unfold Direct Outward at *
  rw [tmpPath_eq plain slashToo, unitPath_eq plain slashToo, sameRead, sameTmp, sameUnit] at *
  exact ⟨Iff.rfl, outward⟩

/-- A service of the same unit has been written. -/
theorem Wrote.same (written : Wrote dir d before after) (same : other.name = d.name)
    (agree : renderUnit other = renderUnit d) :
    Direct dir after other ∧ Outward dir after other := by
  have read : after.read (unitPath dir other) = some (renderUnit other) := by
    rw [paths_of_name same, agree, Tree.read_iff, Tree.follow_of_not_link]
    · exact written.unit
    · intro target
      rw [written.unit]
      simp
  refine ⟨fun stale => absurd read stale, ?_⟩
  rintro target (link | link)
  · rw [paths_of_name same, written.unit] at link
    cases link
  · rw [paths_of_name same, written.tmp] at link
    cases link

/-! ## Writing the units -/

theorem writeUnits_cons {first : ServiceDescriptor} {rest : List ServiceDescriptor} {wrote : Bool}
    (returned : (writeUnits dir tree (first :: rest)).result = some wrote) :
    ∃ one others, (writeUnit dir tree first).result = some one ∧
      (writeUnits dir (writeUnit dir tree first).tree rest).result = some others ∧
      (writeUnits dir tree (first :: rest)).tree =
        (writeUnits dir (writeUnit dir tree first).tree rest).tree ∧
      (writeUnits dir tree (first :: rest)).events = (writeUnit dir tree first).events ++
        (writeUnits dir (writeUnit dir tree first).tree rest).events := by
  rw [writeUnits] at returned ⊢
  cases one : (writeUnit dir tree first).result with
  | none => simp [one] at returned
  | some changed =>
    simp only [one, Option.map_eq_some_iff] at returned
    obtain ⟨others, later, -⟩ := returned
    exact ⟨changed, others, rfl, later, rfl, rfl⟩

/-- The services agree on their units, and where links lead. -/
structure Ready (dir : Place) (tree : Tree) (services : List ServiceDescriptor) : Prop where
  slash : ∀ d ∈ services, '/' ∉ d.name.toList
  agree : ∀ a ∈ services, ∀ b ∈ services, a.name = b.name → renderUnit a = renderUnit b
  outward : ∀ d ∈ services, Outward dir tree d

variable {services rest : List ServiceDescriptor}

theorem Ready.tail (ready : Ready dir tree (d :: rest)) : Ready dir tree rest where
  slash other member := ready.slash other (List.mem_cons_of_mem d member)
  agree a inA b inB := ready.agree a (List.mem_cons_of_mem d inA) b (List.mem_cons_of_mem d inB)
  outward other member := ready.outward other (List.mem_cons_of_mem d member)

theorem Ready.wrote (plain : ∀ name ∈ dir, Plain name) (ready : Ready dir before (d :: rest))
    (written : Wrote dir d before after) : Ready dir after rest where
  slash := ready.tail.slash
  agree := ready.tail.agree
  outward other member := by
    have here := List.mem_cons_of_mem d member
    by_cases same : other.name = d.name
    · exact (written.same same (ready.agree other here d List.mem_cons_self same)).2
    · exact (written.apart plain (ready.slash d List.mem_cons_self) (ready.slash other here) same
        (ready.outward other here)).2

/-- The entries that are written for these services. -/
def owned (services : List ServiceDescriptor) : Set Path :=
  {name | ∃ d ∈ services, name ∈ entriesOf d}

theorem entriesOf_subset (member : d ∈ services) : entriesOf d ⊆ owned services :=
  fun _ inside => ⟨d, member, inside⟩

theorem owned_subset_cons : owned rest ⊆ owned (d :: rest) :=
  fun _ ⟨other, member, inside⟩ => ⟨other, List.mem_cons_of_mem d member, inside⟩

/-- A unit that is right stays so while the others are written. -/
theorem read_after (plain : ∀ name ∈ dir, Plain name) (slash : ∀ other ∈ d :: rest,
    '/' ∉ other.name.toList) (agree : ∀ other ∈ rest, other.name = d.name →
      renderUnit other = renderUnit d) (outward : Outward dir before d)
    (right : before.read (unitPath dir d) = some (renderUnit d))
    (kept : Kept dir (owned rest) before after)
    (others : ∀ other ∈ rest, after.read (unitPath dir other) = some (renderUnit other)) :
    after.read (unitPath dir d) = some (renderUnit d) := by
  have here := slash d List.mem_cons_self
  by_cases again : ∃ other ∈ rest, other.name = d.name
  · obtain ⟨other, member, same⟩ := again
    rw [← paths_of_name same, others other member, agree other member same]
  · have outside : (unitName d).toList ∉ owned rest := by
      rintro ⟨other, member, inside⟩
      have apart : d.name ≠ other.name := fun same => again ⟨other, member, same.symm⟩
      exact (entries_apart (slash other (List.mem_cons_of_mem d member)) here apart).1 inside
    rw [unitPath_eq plain here] at right ⊢
    rw [← right]
    exact kept.read outside fun target link =>
      outward target (.inl (by rw [unitPath_eq plain here, link]))

theorem writeUnits_direct (plain : ∀ name ∈ dir, Plain name) (ready : Ready dir tree services)
    (direct : ∀ d ∈ services, Direct dir tree d) {wrote : Bool}
    (returned : (writeUnits dir tree services).result = some wrote) :
    (∀ d ∈ services,
      (writeUnits dir tree services).tree.read (unitPath dir d) = some (renderUnit d)) ∧
    Kept dir (owned services) tree (writeUnits dir tree services).tree ∧
    ∀ event ∈ (writeUnits dir tree services).events,
      ∃ name, event = .wrote (dir ++ [name]) ∨ event = .renamed (dir ++ [name]) := by
  induction services generalizing tree wrote with
  | nil => exact ⟨by simp, Kept.refl, by simp [writeUnits]⟩
  | cons first rest ih =>
    obtain ⟨one, others, returnedFirst, returnedRest, tree_eq, events_eq⟩ :=
      writeUnits_cons returned
    have here := ready.slash first List.mem_cons_self
    have agree : ∀ other ∈ rest, other.name = first.name → renderUnit other = renderUnit first :=
      fun other member =>
        ready.agree other (List.mem_cons_of_mem first member) first List.mem_cons_self
    rw [tree_eq, events_eq]
    rcases writeUnit_direct plain here (direct first List.mem_cons_self) returnedFirst with
      ⟨right, whole⟩ | ⟨written, wroteEvents⟩
    · rw [whole] at returnedRest ⊢
      obtain ⟨reads, kept, placed⟩ := ih ready.tail
        (fun other member => direct other (List.mem_cons_of_mem first member)) returnedRest
      refine ⟨?_, kept.mono owned_subset_cons, placed⟩
      intro other member
      rcases List.mem_cons.mp member with rfl | later
      · exact read_after plain ready.slash agree (ready.outward other List.mem_cons_self) right
          kept reads
      · exact reads other later
    · have stillDirect : ∀ other ∈ rest, Direct dir (writeUnit dir tree first).tree other := by
        intro other member
        have there := List.mem_cons_of_mem first member
        by_cases same : other.name = first.name
        · exact (written.same same (agree other member same)).1
        · exact (written.apart plain here (ready.slash other there) same
            (ready.outward other there)).1.mpr (direct other there)
      obtain ⟨reads, kept, placed⟩ := ih (ready.wrote plain written) stillDirect returnedRest
      obtain ⟨directFirst, outwardFirst⟩ := written.same (show first.name = first.name from rfl) rfl
      have right : (writeUnit dir tree first).tree.read (unitPath dir first) =
          some (renderUnit first) := by
        rw [Tree.read_iff, Tree.follow_of_not_link]
        · exact written.unit
        · intro target
          rw [written.unit]
          simp
      refine ⟨?_, ?_, ?_⟩
      · intro other member
        rcases List.mem_cons.mp member with rfl | later
        · exact read_after plain ready.slash agree outwardFirst right kept reads
        · exact reads other later
      · exact (written.kept.mono (entriesOf_subset List.mem_cons_self)).trans
          (kept.mono owned_subset_cons)
      · intro event member
        rcases List.mem_append.mp member with own | later
        · rw [wroteEvents] at own
          rcases List.mem_cons.mp own with rfl | last
          · exact ⟨_, .inl (by rw [tmpPath_eq plain here])⟩
          · rw [List.mem_singleton.mp last]
            exact ⟨_, .inr (by rw [unitPath_eq plain here])⟩
        · exact placed event later

/-- The first unit that is written through a link is written out of the directory. -/
theorem writeUnits_through (plain : ∀ name ∈ dir, Plain name) (ready : Ready dir tree services)
    {stray : ServiceDescriptor} (member : stray ∈ services) (through : ¬ Direct dir tree stray)
    {wrote : Bool} (returned : (writeUnits dir tree services).result = some wrote) :
    ∃ place, ¬ dir <+: place ∧ .wrote place ∈ (writeUnits dir tree services).events := by
  induction services generalizing tree wrote with
  | nil => cases member
  | cons first rest ih =>
    obtain ⟨one, others, returnedFirst, returnedRest, -, events_eq⟩ := writeUnits_cons returned
    have here := ready.slash first List.mem_cons_self
    rw [events_eq]
    by_cases direct : Direct dir tree first
    · have later : stray ∈ rest := by
        rcases List.mem_cons.mp member with rfl | later
        · exact absurd direct through
        · exact later
      rcases writeUnit_direct plain here direct returnedFirst with ⟨-, whole⟩ | ⟨written, -⟩
      · rw [whole] at returnedRest ⊢
        exact ih ready.tail later through returnedRest
      · have apart : stray.name ≠ first.name := by
          intro same
          apply through
          unfold Direct at direct ⊢
          rwa [paths_of_name same, ready.agree stray member first List.mem_cons_self same]
        have stillThrough : ¬ Direct dir (writeUnit dir tree first).tree stray := by
          rwa [(written.apart plain here (ready.slash stray member) apart
            (ready.outward stray member)).1]
        obtain ⟨place, outside, event⟩ := ih (ready.wrote plain written) later stillThrough
          returnedRest
        exact ⟨place, outside, List.mem_append_right _ event⟩
    · unfold Direct at direct
      push Not at direct
      obtain ⟨stale, target, link⟩ := direct
      refine ⟨target, ready.outward first List.mem_cons_self target (.inr link), ?_⟩
      exact List.mem_append_left _ (writeUnit_through plain here stale link returnedFirst)

theorem writeUnits_idle (right : ∀ d ∈ services,
    tree.read (unitPath dir d) = some (renderUnit d)) :
    writeUnits dir tree services = { tree, events := [], result := some false } := by
  induction services with
  | nil => rfl
  | cons first rest ih =>
    have others := ih fun other member => right other (List.mem_cons_of_mem first member)
    have one : writeUnit dir tree first = { tree, events := [], result := some false } := by
      simp [writeUnit, right first List.mem_cons_self]
    simp [writeUnits, one, others]

/-! ## Removing what is stale -/

theorem mem_staleManagedUnits {desired : List String} {unit : String} :
    unit ∈ staleManagedUnits dir tree desired ↔
      managed unit.toList = true ∧ (tree.get (dir ++ [unit.toList])).isSome ∧ unit ∉ desired := by
  unfold staleManagedUnits
  rw [List.mem_filter, List.mem_insertionSort, List.mem_map]
  constructor
  · rintro ⟨⟨name, found, rfl⟩, fresh⟩
    rw [List.mem_filter, Tree.mem_namesIn] at found
    rw [String.toList_ofList]
    exact ⟨found.2, found.1, by simpa using fresh⟩
  · rintro ⟨ours, there, fresh⟩
    refine ⟨⟨unit.toList, ?_, String.ofList_toList⟩, by simpa using fresh⟩
    rw [List.mem_filter, Tree.mem_namesIn]
    exact ⟨there, ours⟩

theorem removeUnit_erases {name : String} (returned : (removeUnit dir tree name).result = some ()) :
    removeUnit dir tree name =
      { tree := tree.erase (joinUnit dir ("helix-" ++ name ++ ".service"))
        events := [.removed (joinUnit dir ("helix-" ++ name ++ ".service"))]
        result := some () } := by
  unfold removeUnit at returned ⊢
  cases removed : tree.remove (joinUnit dir ("helix-" ++ name ++ ".service")) with
  | none => simp [removed] at returned
  | some without => simp only [removed, Tree.remove_eq removed]

theorem removeStale_removed (plain : ∀ name ∈ dir, Plain name) {stale : List String}
    (ours : ∀ unit ∈ stale, managed unit.toList = true)
    (returned : (removeStale dir tree stale).result = some ()) :
    Kept dir {name | ∃ unit ∈ stale, unit.toList = name} tree (removeStale dir tree stale).tree ∧
    (∀ unit ∈ stale, (removeStale dir tree stale).tree.get (dir ++ [unit.toList]) = none) ∧
    ∀ event ∈ (removeStale dir tree stale).events,
      ∀ place, event ≠ .wrote place ∧ event ≠ .renamed place := by
  induction stale generalizing tree with
  | nil => exact ⟨Kept.refl, by simp, by simp [removeStale]⟩
  | cons first rest ih =>
    have here := ours first List.mem_cons_self
    have one : (removeUnit dir tree (unitToService first)).result = some () := by
      cases answer : (removeUnit dir tree (unitToService first)).result with
      | none => simp [removeStale, answer] at returned
      | some done => rfl
    have erased := removeUnit_erases one
    rw [unitToService_of_managed here, joinUnit_of_plain plain (plain_of_managed here)] at erased
    simp only [removeStale, erased] at returned ⊢
    obtain ⟨kept, gone, quiet⟩ := ih (fun unit member =>
      ours unit (List.mem_cons_of_mem first member)) returned
    refine ⟨?_, ?_, ?_⟩
    · have firstKept : Kept dir {first.toList} tree (tree.erase (dir ++ [first.toList])) :=
        Kept.erase first.toList
      refine (firstKept.mono ?_).trans (kept.mono ?_)
      · rintro name rfl
        exact ⟨first, List.mem_cons_self, rfl⟩
      · rintro name ⟨unit, member, same⟩
        exact ⟨unit, List.mem_cons_of_mem first member, same⟩
    · intro unit member
      by_cases later : unit ∈ rest
      · exact gone unit later
      · obtain rfl : unit = first := by
          rcases List.mem_cons.mp member with same | inRest
          · exact same
          · exact absurd inRest later
        have outside : unit.toList ∉ {name | ∃ other ∈ rest, other.toList = name} := by
          rintro ⟨other, inRest, same⟩
          exact later (String.toList_inj.mp same ▸ inRest)
        rw [kept.entries _ outside, Tree.get_erase, if_pos rfl]
    · intro event member place
      rcases List.mem_append.mp member with own | later
      · simp only [List.mem_cons, List.not_mem_nil, or_false] at own
        rcases own with rfl | rfl | rfl <;> simp
      · exact quiet event later place

/-! ## The whole -/

theorem mem_sorted : d ∈ sorted services ↔ d ∈ services := by
  rw [sorted, List.mem_insertionSort]

variable {sd : Systemd}

theorem reconcile_cases (returned : (reconcile dir sd services tree).result = some ()) :
    ∃ stale removal writing wrote,
      stale = staleManagedUnits dir tree ((sorted services).map unitName) ∧
      removal = removeStale dir tree stale ∧ removal.result = some () ∧
      writing = writeUnits dir removal.tree (sorted services) ∧ writing.result = some wrote ∧
      (reconcile dir sd services tree).tree = writing.tree ∧
      (reconcile dir sd services tree).events = removal.events ++ writing.events ++
        (reload sd (stale ≠ [] || wrote)).1 ++ (sorted services).flatMap (settle sd) := by
  simp only [reconcile] at returned ⊢
  generalize staleEq : staleManagedUnits dir tree ((sorted services).map unitName) = stale
    at returned ⊢
  generalize removalEq : removeStale dir tree stale = removal at returned ⊢
  generalize writingEq : writeUnits dir removal.tree (sorted services) = writing at returned ⊢
  cases removed : removal.result with
  | none => simp [removed] at returned
  | some done =>
    cases written : writing.result with
    | none => simp [removed, written] at returned
    | some wrote =>
      simp only [removed, written] at returned ⊢
      split at returned
      next reloaded =>
        exact ⟨stale, removal, writing, wrote, rfl, removalEq.symm, removed, writingEq.symm,
          written, by rw [if_pos reloaded], by rw [if_pos reloaded]⟩
      · cases returned

theorem settle_quiet {event : Event} (member : event ∈ settle sd d) :
    event ≠ .daemonReload ∧ ∀ place, event ≠ .wrote place ∧ event ≠ .renamed place ∧
      event ≠ .removed place := by
  unfold settle at member
  split at member
  · split at member <;> simp only [List.mem_cons, List.not_mem_nil, or_false] at member
    · subst member
      simp
    · rcases member with rfl | rfl <;> simp
  · simp only [List.mem_cons, List.not_mem_nil, or_false] at member
    rcases member with rfl | rfl <;> simp

theorem quiet_of_exact (plain : ∀ name ∈ dir, Plain name) (exact_ : Exact dir services tree)
    (sd : Systemd) : Quiet (reconcile dir sd services tree).events := by
  have none_stale : staleManagedUnits dir tree ((sorted services).map unitName) = [] := by
    rw [List.eq_nil_iff_forall_not_mem]
    intro unit member
    obtain ⟨ours, there, fresh⟩ := mem_staleManagedUnits.mp member
    obtain ⟨d, desired, same⟩ := exact_.1 unit.toList ours there
    exact fresh (List.mem_map.mpr ⟨d, mem_sorted.mpr desired, String.toList_inj.mp same⟩)
  have right : ∀ d ∈ sorted services, tree.read (unitPath dir d) = some (renderUnit d) := by
    intro d member
    obtain ⟨slash, read⟩ := exact_.2 d (mem_sorted.mp member)
    rwa [unitPath_eq plain ((slash_unitName d).not.mp slash)]
  have events : (reconcile dir sd services tree).events =
      (sorted services).flatMap (settle sd) := by
    simp [reconcile, none_stale, removeStale, writeUnits_idle right, reload]
  rw [events]
  refine ⟨?_, fun place => ⟨?_, ?_, ?_⟩⟩ <;> intro member <;>
    obtain ⟨d, -, inSettle⟩ := List.mem_flatMap.mp member
  · exact (settle_quiet inSettle).1 rfl
  · exact ((settle_quiet inSettle).2 place).1 rfl
  · exact ((settle_quiet inSettle).2 place).2.1 rfl
  · exact ((settle_quiet inSettle).2 place).2.2 rfl

theorem Exact.safe (exact_ : Exact dir services tree) : Safe services := by
  refine ⟨?_, ?_⟩
  · intro d member
    exact (slash_unitName d).not.mp (exact_.2 d member).1
  · intro a inA b inB same
    have readA := (exact_.2 a inA).2
    have readB := (exact_.2 b inB).2
    have sameUnit : unitName a = unitName b := by rw [unitName, unitName, same]
    rw [sameUnit, readB] at readA
    exact (Option.some.inj readA).symm

/-- The stale units are gone, and the services are where they were. -/
structure Swept (dir : Place) (services : List ServiceDescriptor) (before after : Tree) : Prop where
  ready : Ready dir after (sorted services)
  direct : ∀ d ∈ services, (Direct dir after d ↔ Direct dir before d)
  desired : ∀ name, managed name = true → (after.get (dir ++ [name])).isSome →
    ∃ d ∈ services, (unitName d).toList = name

theorem swept_of_removed (plain : ∀ name ∈ dir, Plain name) (safe : Safe services)
    (outward : ∀ d ∈ services, Outward dir tree d) {stale : List String}
    (managedUnits : stale = staleManagedUnits dir tree ((sorted services).map unitName))
    (removed : (removeStale dir tree stale).result = some ()) :
    Swept dir services tree (removeStale dir tree stale).tree := by
  have stale_iff : ∀ unit, unit ∈ stale ↔ managed unit.toList = true ∧
      (tree.get (dir ++ [unit.toList])).isSome ∧ unit ∉ (sorted services).map unitName := by
    intro unit
    rw [managedUnits]
    exact mem_staleManagedUnits
  obtain ⟨kept, gone, -⟩ :=
    removeStale_removed plain (fun unit member => ((stale_iff unit).mp member).1) removed
  have same : ∀ d ∈ services,
      (Direct dir (removeStale dir tree stale).tree d ↔ Direct dir tree d) ∧
        Outward dir (removeStale dir tree stale).tree d := by
    intro d member
    have slash := safe.1 d member
    have keptUnit : (unitName d).toList ∉ {name | ∃ unit ∈ stale, unit.toList = name} := by
      rintro ⟨unit, inStale, sameUnit⟩
      apply ((stale_iff unit).mp inStale).2.2
      exact List.mem_map.mpr ⟨d, mem_sorted.mpr member, (String.toList_inj.mp sameUnit).symm⟩
    have keptTmp : tmpName d ∉ {name | ∃ unit ∈ stale, unit.toList = name} := by
      rintro ⟨unit, inStale, sameTmp⟩
      have ours := ((stale_iff unit).mp inStale).1
      rw [sameTmp, not_managed_tmpName] at ours
      cases ours
    have goesOut := outward d member
    have sameUnit := kept.entries _ keptUnit
    have sameTmp := kept.entries _ keptTmp
    have sameRead := kept.read keptUnit fun target link =>
      goesOut target (.inl (by rw [unitPath_eq plain slash, link]))
    unfold Direct Outward at *
    rw [tmpPath_eq plain slash, unitPath_eq plain slash, sameRead, sameTmp, sameUnit] at *
    exact ⟨Iff.rfl, goesOut⟩
  refine ⟨⟨?_, ?_, ?_⟩, fun d member => (same d member).1, ?_⟩
  · exact fun d member => safe.1 d (mem_sorted.mp member)
  · exact fun a inA b inB => safe.2 a (mem_sorted.mp inA) b (mem_sorted.mp inB)
  · exact fun d member => (same d (mem_sorted.mp member)).2
  · intro name ours there
    have notStale : String.ofList name ∉ stale := by
      intro inStale
      have missing := gone _ inStale
      rw [String.toList_ofList] at missing
      rw [missing] at there
      cases there
    have before : (tree.get (dir ++ [name])).isSome := by
      rwa [kept.entries] at there
      rintro ⟨unit, inStale, rfl⟩
      rw [String.ofList_toList] at notStale
      exact notStale inStale
    by_contra fresh
    apply notStale
    rw [stale_iff, String.toList_ofList]
    refine ⟨ours, before, fun inDesired => fresh ?_⟩
    obtain ⟨d, desired, sameUnit⟩ := List.mem_map.mp inDesired
    exact ⟨d, mem_sorted.mp desired, by rw [sameUnit, String.toList_ofList]⟩

theorem inside_of_placed {removing writing reloading : List Event}
    (removed : ∀ event ∈ removing, ∀ place, event ≠ .wrote place ∧ event ≠ .renamed place)
    (placed : ∀ event ∈ writing,
      ∃ name, event = .wrote (dir ++ [name]) ∨ event = .renamed (dir ++ [name]))
    (reloaded : ∀ event ∈ reloading, event = .daemonReload) :
    Inside dir (removing ++ writing ++ reloading ++ services.flatMap (settle sd)) := by
  have located : ∀ event ∈ removing ++ writing ++ reloading ++ services.flatMap (settle sd),
      ∀ place, event = .wrote place ∨ event = .renamed place → ∃ name, place = dir ++ [name] := by
    intro event member place writes
    simp only [List.mem_append] at member
    rcases member with ((fromRemoval | fromWriting) | fromReload) | fromSettle
    · obtain ⟨notWrote, notRenamed⟩ := removed event fromRemoval place
      rcases writes with wrote | renamed
      · exact absurd wrote notWrote
      · exact absurd renamed notRenamed
    · obtain ⟨name, rfl | rfl⟩ := placed event fromWriting
      · rcases writes with same | same <;> cases same
        exact ⟨name, rfl⟩
      · rcases writes with same | same <;> cases same
        exact ⟨name, rfl⟩
    · rw [reloaded event fromReload] at writes
      rcases writes with same | same <;> cases same
    · obtain ⟨d, -, inSettle⟩ := List.mem_flatMap.mp fromSettle
      obtain ⟨notWrote, notRenamed, -⟩ := (settle_quiet inSettle).2 place
      rcases writes with wrote | renamed
      · exact absurd wrote notWrote
      · exact absurd renamed notRenamed
  rintro place (member | member)
  · exact located _ member place (.inl rfl)
  · exact located _ member place (.inr rfl)

theorem mem_reload {changed : Bool} {event : Event}
    (member : event ∈ (reload sd changed).1) : event = .daemonReload := by
  unfold reload at member
  split at member
  · exact List.mem_singleton.mp member
  · cases member

/-- The units of the services are what is in place, once they have been written directly. -/
theorem converged_of_direct (plain : ∀ name ∈ dir, Plain name)
    (outward : ∀ d ∈ services, Outward dir tree d) (safe : Safe services)
    (direct : ∀ d ∈ services, Direct dir tree d)
    (returned : (reconcile dir sd services tree).result = some ()) :
    Converged dir services (reconcile dir sd services tree) := by
  obtain ⟨stale, removal, writing, wrote, staleEq, rfl, removed, rfl, written, tree_eq,
    events_eq⟩ := reconcile_cases returned
  have swept := swept_of_removed plain safe outward staleEq removed
  have ours : ∀ unit ∈ stale, managed unit.toList = true := by
    intro unit member
    rw [staleEq] at member
    exact (mem_staleManagedUnits.mp member).1
  obtain ⟨-, -, onlyRemoved⟩ := removeStale_removed plain ours removed
  have stillDirect : ∀ d ∈ sorted services, Direct dir (removeStale dir tree stale).tree d :=
    fun d member => (swept.direct d (mem_sorted.mp member)).mpr (direct d (mem_sorted.mp member))
  obtain ⟨reads, kept, placed⟩ := writeUnits_direct plain swept.ready stillDirect written
  have exact_ : Exact dir services (reconcile dir sd services tree).tree := by
    rw [tree_eq]
    refine ⟨?_, ?_⟩
    · intro name managedName there
      by_cases own : name ∈ owned (sorted services)
      · obtain ⟨d, member, tmp | unit⟩ := own
        · rw [tmp, not_managed_tmpName] at managedName
          cases managedName
        · exact ⟨d, mem_sorted.mp member, unit.symm⟩
      · rw [kept.entries name own] at there
        exact swept.desired name managedName there
    · intro d member
      have slash := safe.1 d member
      rw [← unitPath_eq plain slash]
      exact ⟨(slash_unitName d).not.mpr slash, reads d (mem_sorted.mpr member)⟩
  refine ⟨exact_, ?_, fun sd => quiet_of_exact plain exact_ sd⟩
  rw [events_eq]
  exact inside_of_placed onlyRemoved placed fun event member => mem_reload member

theorem direct_of_inside (plain : ∀ name ∈ dir, Plain name)
    (outward : ∀ d ∈ services, Outward dir tree d) (safe : Safe services)
    (returned : (reconcile dir sd services tree).result = some ())
    (inside : Inside dir (reconcile dir sd services tree).events) :
    ∀ d ∈ services, Direct dir tree d := by
  intro d member
  by_contra through
  obtain ⟨stale, removal, writing, wrote, staleEq, rfl, removed, rfl, written, -, events_eq⟩ :=
    reconcile_cases returned
  have swept := swept_of_removed plain safe outward staleEq removed
  obtain ⟨place, outside, event⟩ := writeUnits_through plain swept.ready (mem_sorted.mpr member)
    ((swept.direct d member).not.mpr through) written
  obtain ⟨name, rfl⟩ := inside place (.inl (by rw [events_eq]; simp [event]))
  exact outside (List.prefix_append dir [name])

def unitsDir : Path := "/run/systemd/system".toList

/-- A service that answers at `camera`, which may be stopped. -/
def camera : ServiceDescriptor := { name := "camera", execStart := ["/opt/camera"] }

/-- A unit of the service is in place, and one of a service that is gone. -/
def leftover : Tree :=
  ⟨[(locate unitsDir ++ ["helix-camera.service".toList], .file "[Unit]"),
    (locate unitsDir ++ ["helix-old.service".toList], .file "[Unit]")]⟩

/-- A package whose service has a name with a separator. -/
def nested : Pkg.Manifest :=
  { name := "camera", version := "1.0", kind := .goBinary
    service := some { name := "front/camera", execStart := ["/opt/camera"] } }

end HelixKit.Runtime
