/-
Purpose: Builds over a run of requests and callbacks: which of them have ended, with which release,
  and which of them answer a request.
Trusted boundary: none
Main exports: runs_right
-/
import HelixKit.Backend.ReleasesApi
import HelixKit.Lib.Runs

namespace HelixKit.Backend.BuildRuns

open ReleaseSchema ReleaseAdapters ReleaseIngest ReleasesApi
open HelixKit.Runs HelixKit.Upsert

variable {Config : Type} (hashes : Hashes Config)

/-! ## Runs -/

inductive BuildCall (Config : Type) where
  | request (around : Surroundings) (input : BuildRequestInput Config)
  | complete (around : Surroundings) (secret : Option String) (input : BuildCompleteInput)

/-- A call that fails changes nothing. -/
def step (db : Db) : BuildCall Config → Db
  | .request around input =>
    match requestBuild hashes around db input with
    | .error _ => db
    | .ok (_, db) => db
  | .complete around secret input =>
    match buildComplete hashes around db secret input with
    | .error _ => db
    | .ok (_, db) => db

/-! ## What is right -/

/-- A build that has ended keeps its status. -/
def Settled (before after : List Build) : Prop :=
  ∀ row ∈ before, row.status ≠ .queued →
    ∃ later ∈ after, later.id = row.id ∧ later.status = row.status

instance (before after : List Build) : Decidable (Settled before after) :=
  inferInstanceAs (Decidable (∀ row ∈ before, row.status ≠ .queued →
    ∃ later ∈ after, later.id = row.id ∧ later.status = row.status))

/-- A build has a release just when it has succeeded. -/
def Released (builds : List Build) : Prop :=
  ∀ row ∈ builds, row.releaseId.isSome = true ↔ row.status = .success

/-- A build that answers a request. -/
def Answers (input : BuildRequestInput Config) (configHash : String) (row : Build) : Prop :=
  row.status = .success ∧ row.typeKey = input.typeKey ∧ row.configHash = configHash

/-- A request is answered by a build just when there is one that answers it, and by such a build. -/
def Answered (around : Surroundings) (db : Db) (input : BuildRequestInput Config) : Prop :=
  ∀ configHash, configHashFor hashes db.tables.artifactTypes input = .ok configHash →
    ((∃ buildId releaseId variantId after,
        requestBuild hashes around db input = .ok (.hit buildId releaseId variantId, after)) ↔
      ∃ row ∈ db.builds, Answers input configHash row) ∧
    ∀ buildId releaseId variantId after,
      requestBuild hashes around db input = .ok (.hit buildId releaseId variantId, after) →
      ∃ row ∈ db.builds, Answers input configHash row ∧ row.id = buildId ∧
        row.releaseId = some releaseId

structure Right (db : Db) (op : BuildCall Config) : Prop where
  settled : Settled db.builds (step hashes db op).builds
  released : Released (step hashes db op).builds
  answered : ∀ around input, op = .request around input → Answered hashes around db input

/-! ## When it is -/

/-- The row that the lookup returns first answers the request, or it has not succeeded and no other
row answers the request. -/
def RequestFits (around : Surroundings) (db : Db) (input : BuildRequestInput Config) : Prop :=
  ∀ configHash, configHashFor hashes db.tables.artifactTypes input = .ok configHash →
    ∀ first ∈ firstWithHash around db.builds configHash,
      Answers input configHash first ∨
        first.status ≠ .success ∧ ∀ row ∈ db.builds, ¬ Answers input configHash row

/-- A callback that is accepted does not fail a build that has succeeded, and brings no release
for a build that has failed. -/
def CallbackFits (around : Surroundings) (db : Db) (secret : Option String)
    (input : BuildCompleteInput) : Prop :=
  (verifyBuildCallback hashes around db.builds input.buildId secret).isOk = true →
    ∀ row ∈ db.builds, row.id = input.buildId →
      (row.status = .success → input.built ≠ none) ∧
      (row.status = .failed → ∀ release ∈ input.built,
        (ingest hashes around db.tables release true).isOk = false)

def Fits (db : Db) : BuildCall Config → Prop
  | .request around input => RequestFits hashes around db input
  | .complete around secret input => CallbackFits hashes around db secret input

/-! ## The invariant -/

/-- What a run keeps. -/
structure Sound (builds : List Build) : Prop where
  ids : (builds.map Build.id).Nodup
  released : Released builds

variable {hashes} {around : Surroundings} {db after : Db} {input : BuildRequestInput Config}

variable {builds : List Build} {configHash : String}

theorem firstWithHash_mem {first : Build}
    (found : firstWithHash around builds configHash = some first) :
    first ∈ builds ∧ first.configHash = configHash := by
  have inside := (around.rows.perm _).mem_iff.mp (List.mem_of_mem_head? found)
  obtain ⟨member, hash⟩ := List.mem_filter.mp inside
  exact ⟨member, of_decide_eq_true hash⟩

theorem firstWithHash_none (missing : firstWithHash around builds configHash = none) :
    ∀ row ∈ builds, row.configHash ≠ configHash := by
  have empty : around.rows.order (builds.filter fun row => row.configHash = configHash) = [] :=
    List.head?_eq_none_iff.mp missing
  have perm := around.rows.perm (builds.filter fun row => row.configHash = configHash)
  rw [empty] at perm
  intro row member same
  have inside : row ∈ builds.filter fun row => row.configHash = configHash :=
    List.mem_filter.mpr ⟨member, decide_eq_true same⟩
  rw [← perm.nil_eq] at inside
  cases inside

/-- A request is answered by a build just when the lookup returns one with a release first. -/
theorem hit_iff (hashed : configHashFor hashes db.tables.artifactTypes input = .ok configHash)
    {buildId releaseId : String} {variantId : Option String} :
    requestBuild hashes around db input = .ok (.hit buildId releaseId variantId, after) ↔
      ∃ first, firstWithHash around db.builds configHash = some first ∧
        first.releaseId = some releaseId ∧ first.id = buildId ∧ first.variantId = variantId ∧
        after = db := by
  constructor
  · intro returned
    obtain ⟨other, otherHashed, hit | queued⟩ := requestBuild_cases returned
    · obtain rfl := Except.ok.inj (hashed.symm.trans otherHashed)
      obtain ⟨first, id, found, released, same, unchanged⟩ := hit
      cases same
      exact ⟨first, found, released, rfl, rfl, unchanged⟩
    · obtain ⟨-, -, -, same, -⟩ := queued
      cases same
  · rintro ⟨first, found, released, rfl, rfl, rfl⟩
    unfold requestBuild
    rw [hashed]
    simp [found, released, bind, Except.bind, pure, Except.pure]

theorem answered_iff (sound : Sound db.builds) :
    Answered hashes around db input ↔ RequestFits hashes around db input := by
  unfold Answered RequestFits
  refine forall_congr' fun configHash => forall_congr' fun hashed => ?_
  simp only [hit_iff hashed]
  cases found : firstWithHash around db.builds configHash with
  | none =>
    have absent := firstWithHash_none found
    simp only [reduceCtorEq, false_and, exists_false, false_iff, Option.not_mem_none,
      false_implies, implies_true, iff_true, and_true]
    rintro ⟨row, member, -, -, hash⟩
    exact absent row member hash
  | some first =>
    obtain ⟨member, hash⟩ := firstWithHash_mem found
    have released := sound.released first member
    simp only [Option.some.injEq, exists_eq_left', Option.mem_def, forall_eq']
    constructor
    · rintro ⟨hits, right⟩
      cases release : first.releaseId with
      | some releaseId =>
        obtain ⟨row, row_mem, answers, same, -⟩ :=
          right first.id releaseId first.variantId db ⟨release, rfl, rfl, rfl⟩
        have equal : row = first :=
          List.inj_on_of_nodup_map sound.ids row_mem member same
        exact .inl (equal ▸ answers)
      | none =>
        refine .inr ⟨fun success => ?_, fun row row_mem answers => ?_⟩
        · rw [← released, release] at success
          cases success
        · obtain ⟨-, releaseId, -, -, some_, -⟩ := hits.mpr ⟨row, row_mem, answers⟩
          rw [release] at some_
          cases some_
    · rintro (answers | ⟨unsuccessful, others⟩)
      · obtain ⟨releaseId, release⟩ := Option.isSome_iff_exists.mp (released.mpr answers.1)
        refine ⟨⟨fun _ => ⟨first, member, answers⟩, fun _ => ?_⟩, ?_⟩
        · exact ⟨first.id, releaseId, first.variantId, db, release, rfl, rfl, rfl⟩
        · rintro buildId other variantId after ⟨some_, rfl, -, -⟩
          exact ⟨first, member, answers, rfl, some_⟩
      · have unreleased : ∀ releaseId, first.releaseId ≠ some releaseId := by
          intro releaseId release
          exact unsuccessful (released.mp (by rw [release]; rfl))
        refine ⟨⟨?_, ?_⟩, ?_⟩
        · rintro ⟨-, releaseId, -, -, release, -⟩
          exact absurd release (unreleased releaseId)
        · rintro ⟨row, row_mem, answers⟩
          exact absurd answers (others row row_mem)
        · rintro - releaseId - - ⟨release, -⟩
          exact absurd release (unreleased releaseId)

/-! ## Steps -/

theorem settled_refl (builds : List Build) : Settled builds builds :=
  fun row member _ => ⟨row, member, rfl, rfl⟩

/-- A request adds a queued build at most. -/
theorem step_request (sound : Sound db.builds) :
    Settled db.builds (step hashes db (.request around input)).builds ∧
      Sound (step hashes db (.request around input)).builds := by
  simp only [step]
  cases requested : requestBuild hashes around db input with
  | error failure => exact ⟨settled_refl db.builds, sound⟩
  | ok returned =>
    obtain ⟨result, later⟩ := returned
    obtain ⟨configHash, -, hit | queued⟩ := requestBuild_cases requested
    · obtain ⟨-, -, -, -, -, rfl⟩ := hit
      exact ⟨settled_refl later.builds, sound⟩
    · obtain ⟨builds, -, inserted, -, rfl⟩ := queued
      dsimp only
      unfold insertBuild at inserted
      split at inserted
      · cases inserted
      next unused =>
        obtain rfl := Except.ok.inj inserted
        refine ⟨fun row member _ => ⟨row, List.mem_append_left _ member, rfl, rfl⟩, ?_, ?_⟩
        · rw [List.map_append, List.map_singleton, List.nodup_append]
          refine ⟨sound.ids, List.nodup_singleton _, ?_⟩
          rintro id inside other single rfl
          rw [List.mem_singleton] at single
          obtain ⟨row, member, same⟩ := List.mem_map.mp inside
          exact unused (List.any_eq_true.mpr ⟨row, member, decide_eq_true (same.trans single)⟩)
        · intro row inside
          rcases List.mem_append.mp inside with old | new
          · exact sound.released row old
          · rw [List.mem_singleton.mp new]
            simp [queuedBuild]

/-- The build of a callback, changed, and the others. -/
theorem map_settled {buildId : String} {f : Build → Build}
    (ids : (builds.map Build.id).Nodup) (named : ∀ row, (f row).id = row.id)
    (others : ∀ row, row.id ≠ buildId → f row = row) :
    Settled builds (builds.map f) ↔ ∀ row ∈ builds, row.id = buildId → row.status ≠ .queued →
      (f row).status = row.status := by
  constructor
  · intro settled row member _ ended
    obtain ⟨later, later_mem, same, kept⟩ := settled row member ended
    obtain ⟨old, old_mem, rfl⟩ := List.mem_map.mp later_mem
    have equal : old = row :=
      List.inj_on_of_nodup_map ids old_mem member ((named old).symm.trans same)
    rw [← kept, equal]
  · intro kept row member ended
    refine ⟨f row, List.mem_map_of_mem member, named row, ?_⟩
    by_cases same : row.id = buildId
    · exact kept row member same ended
    · rw [others row same]

/-- The keys stay, and so do the releases if the build that is changed has one just when it has
succeeded. -/
theorem map_sound {buildId : String} {f : Build → Build}
    (sound : Sound builds) (named : ∀ row, (f row).id = row.id)
    (others : ∀ row, row.id ≠ buildId → f row = row) (own : ∀ row ∈ builds, row.id = buildId →
      ((f row).releaseId.isSome = true ↔ (f row).status = .success)) :
    Sound (builds.map f) where
  ids := by
    rw [List.map_map]
    have same : Build.id ∘ f = Build.id := funext named
    rw [same]
    exact sound.ids
  released := by
    intro row inside
    obtain ⟨old, old_mem, rfl⟩ := List.mem_map.mp inside
    by_cases same : old.id = buildId
    · exact own old old_mem same
    · rw [others old same]
      exact sound.released old old_mem

section

variable (buildId : String) (result : IngestResult) (row : Build)

theorem failBuild_id : (failBuild buildId row).id = row.id := by
  unfold failBuild
  split <;> rfl

theorem failBuild_other (other : row.id ≠ buildId) : failBuild buildId row = row := if_neg other

theorem finishBuild_id : (finishBuild buildId result row).id = row.id := by
  unfold finishBuild
  split <;> rfl

theorem finishBuild_other (other : row.id ≠ buildId) : finishBuild buildId result row = row :=
  if_neg other

end

variable {secret : Option String} {completion : BuildCompleteInput}

/-- A callback is right just when it fits, and then it keeps the invariant. -/
theorem step_complete (sound : Sound db.builds) :
    (Settled db.builds (step hashes db (.complete around secret completion)).builds ∧
        Released (step hashes db (.complete around secret completion)).builds ↔
      CallbackFits hashes around db secret completion) ∧
    (CallbackFits hashes around db secret completion →
      Sound (step hashes db (.complete around secret completion)).builds) := by
  simp only [step]
  cases completed : buildComplete hashes around db secret completion with
  | error failure =>
    have fits : CallbackFits hashes around db secret completion := by
      intro accepted row _ _
      refine ⟨fun _ built => ?_, fun _ release built => ?_⟩
      · have returns := buildComplete_returns accepted (by simp [built])
        rw [completed] at returns
        cases returns
      · by_contra ingested
        have returns := buildComplete_returns accepted fun other same => by
          rw [Option.mem_unique same built]
          simpa using ingested
        rw [completed] at returns
        cases returns
    exact ⟨⟨fun _ => fits, fun _ => ⟨settled_refl db.builds, sound.released⟩⟩, fun _ => sound⟩
  | ok returned =>
    obtain ⟨releaseId, later⟩ := returned
    obtain ⟨accepted, nothing | brought⟩ := buildComplete_cases completed
    · obtain ⟨built, -, rfl⟩ := nothing
      have settled_iff := map_settled (f := failBuild completion.buildId) sound.ids
        (failBuild_id _) (failBuild_other _)
      have keeps : CallbackFits hashes around db secret completion →
          Sound (db.builds.map (failBuild completion.buildId)) := by
        intro fits
        refine map_sound sound (failBuild_id _) (failBuild_other _) fun row member same => ?_
        have unsuccessful : row.status ≠ .success := fun success =>
          (fits accepted row member same).1 success built
        have released := sound.released row member
        rw [failBuild, if_pos same]
        simpa [unsuccessful] using released
      refine ⟨⟨fun right => ?_, fun fits => ⟨settled_iff.mpr ?_, (keeps fits).released⟩⟩, keeps⟩
      · intro _ row member same
        refine ⟨fun success => ?_, fun _ release brought => ?_⟩
        · have kept := settled_iff.mp right.1 row member same (by rw [success]; decide)
          rw [failBuild, if_pos same, success] at kept
          cases kept
        · rw [built] at brought
          cases brought
      · intro row member same ended
        rw [failBuild, if_pos same]
        cases status : row.status with
        | queued => exact absurd status ended
        | success => exact absurd built ((fits accepted row member same).1 status)
        | failed => rfl
    · obtain ⟨release, result, tables, built, ingested, -, rfl⟩ := brought
      have settled_iff := map_settled (f := finishBuild completion.buildId result) sound.ids
        (finishBuild_id _ result) (finishBuild_other _ result)
      have keeps : Sound (db.builds.map (finishBuild completion.buildId result)) := by
        refine map_sound sound (finishBuild_id _ result) (finishBuild_other _ result) ?_
        intro row _ same
        rw [finishBuild, if_pos same]
        simp
      refine ⟨⟨fun right => ?_, fun fits => ⟨settled_iff.mpr ?_, keeps.released⟩⟩, fun _ => keeps⟩
      · intro _ row member same
        refine ⟨fun _ nothing => ?_, fun failed => ?_⟩
        · rw [built] at nothing
          cases nothing
        · have kept := settled_iff.mp right.1 row member same (by rw [failed]; decide)
          rw [finishBuild, if_pos same, failed] at kept
          cases kept
      · intro row member same ended
        rw [finishBuild, if_pos same]
        cases status : row.status with
        | queued => exact absurd status ended
        | success => rfl
        | failed =>
          have refused := (fits accepted row member same).2 status release built
          rw [ingested] at refused
          cases refused

theorem right_iff (sound : Sound db.builds) (op : BuildCall Config) :
    Fits hashes db op ↔ Right hashes db op := by
  cases op with
  | request around input =>
    have kept : Settled db.builds (step hashes db (.request around input)).builds ∧
        Sound (step hashes db (.request around input)).builds := step_request sound
    obtain ⟨settled, later⟩ := kept
    constructor
    · intro fits
      refine ⟨settled, later.released, fun around input same => ?_⟩
      cases same
      exact (answered_iff sound).mpr fits
    · exact fun right => (answered_iff sound).mp (right.answered around input rfl)
  | complete around secret completion =>
    have same : Settled db.builds (step hashes db (.complete around secret completion)).builds ∧
        Released (step hashes db (.complete around secret completion)).builds ↔
        CallbackFits hashes around db secret completion := (step_complete sound).1
    constructor
    · intro fits
      obtain ⟨settled, released⟩ := same.mpr fits
      exact ⟨settled, released, fun around input other => by cases other⟩
    · exact fun right => same.mp ⟨right.settled, right.released⟩

theorem fits_keeps (sound : Sound db.builds) (op : BuildCall Config) (fits : Fits hashes db op) :
    Sound (step hashes db op).builds := by
  cases op with
  | request around input => exact (step_request sound).2
  | complete around secret completion => exact (step_complete sound).2 fits

/-- In a run from a database without builds, a build that has ended keeps its status, the successful
builds are those with a release, and requests are answered by the builds that answer them, just
when every call fits. -/
theorem runs_right (hashes : Hashes Config) (db : Db) (ops : List (BuildCall Config)) :
    Along (step hashes) (Right hashes) { db with builds := [] } ops ↔
      Along (step hashes) (Fits hashes) { db with builds := [] } ops := by
  have start : Sound ([] : List Build) := ⟨List.nodup_nil, fun row member => by cases member⟩
  refine (Along.congr (fun db => Sound db.builds) ?_ ?_ start).symm
  · exact fun db op sound fits => fits_keeps sound op fits
  · exact fun db op sound => right_iff sound op

/-! ### Calls that do not fit -/

def emptyDb : Db where
  tables :=
    { artifactTypes := [⟨"firmware", "esp32-firmware"⟩, ⟨"bench", "esp32-firmware"⟩] }
  tokens := ⟨[], List.nodup_nil, fun row member => by cases member⟩

def builtRelease : ReleaseDescriptor :=
  { typeKey := "firmware", name := "app", version := "1", channel := "dev"
    variants := [{ selector := { chip := .text "esp32", flashSize := .text "4MB" }
                   artifacts := [{ role := "app", ref := some ⟨"r", "c", "1", "d"⟩ }] }] }

def requests (hex typeKey : String) : BuildCall Unit :=
  .request (sampleAround hex) { typeKey, ownerUserId := "u", config := () }

def succeeds (hex : String) : BuildCall Unit :=
  .complete (sampleAround hex) (some s!"bcb_{hex}")
    { buildId := s!"bld_{hex}", release := some builtRelease }

def fails (hex : String) : BuildCall Unit :=
  .complete (sampleAround hex) (some s!"bcb_{hex}") { buildId := s!"bld_{hex}", failed := true }

/-- A build succeeds, and a second callback says that it failed. -/
def lateFailure : List (BuildCall Unit) := [requests "0" "firmware", succeeds "0"] ++ [fails "0"]

/-- A build fails, and another with the same configuration succeeds, which is requested again. -/
def failedFirst : List (BuildCall Unit) :=
  [requests "0" "firmware", fails "0", requests "1" "firmware", succeeds "1"] ++
    [requests "2" "firmware"]

/-- A build succeeds, and the same configuration is requested for a type with the same adapter. -/
def otherType : List (BuildCall Unit) :=
  [requests "0" "firmware", succeeds "0"] ++ [requests "1" "bench"]

example : (run (step sampleHashes) emptyDb lateFailure).builds.map Build.status = [.failed] := by
  decide

theorem last_right {ops : List (BuildCall Unit)} {op : BuildCall Unit}
    (along : Along (step sampleHashes) (Right sampleHashes) emptyDb (ops ++ [op])) :
    Right sampleHashes (run (step sampleHashes) emptyDb ops) op :=
  (along_append.mp along).2.1

/-- A build that has ended changes its status, a build that answers a request is not found, and a
build of another type is. -/
theorem runs_not_right :
    ¬ Along (step sampleHashes) (Right sampleHashes) emptyDb lateFailure ∧
      ¬ Along (step sampleHashes) (Right sampleHashes) emptyDb failedFirst ∧
      ¬ Along (step sampleHashes) (Right sampleHashes) emptyDb otherType := by
  refine ⟨fun along => ?_, fun along => ?_, fun along => ?_⟩
  · exact absurd (last_right along).settled (by decide)
  · let db := run (step sampleHashes) emptyDb
      [requests "0" "firmware", fails "0", requests "1" "firmware", succeeds "1"]
    have hashed : configHashFor sampleHashes db.tables.artifactTypes
        { typeKey := "firmware", ownerUserId := "u", config := () } = .ok "config" := by
      decide
    obtain ⟨hits, -⟩ := (last_right along).answered _ _ rfl "config" hashed
    have there : db.builds.any (fun row => row.status = .success && row.typeKey = "firmware" &&
        row.configHash = "config") = true := by decide
    obtain ⟨row, row_mem, answers⟩ := List.any_eq_true.mp there
    simp only [Bool.and_eq_true, decide_eq_true_eq] at answers
    obtain ⟨buildId, releaseId, variantId, after, hit⟩ :=
      hits.mpr ⟨row, row_mem, answers.1.1, answers.1.2, answers.2⟩
    obtain ⟨first, found, released, -⟩ := (hit_iff hashed).mp hit
    have unreleased : (firstWithHash (sampleAround "2") db.builds "config").bind
        Build.releaseId = none := by decide
    rw [found, Option.bind_some, released] at unreleased
    cases unreleased
  · let db := run (step sampleHashes) emptyDb [requests "0" "firmware", succeeds "0"]
    have hashed : configHashFor sampleHashes db.tables.artifactTypes
        { typeKey := "bench", ownerUserId := "u", config := () } = .ok "config" := by
      decide
    obtain ⟨hits, -⟩ := (last_right along).answered _ _ rfl "config" hashed
    have found : (firstWithHash (sampleAround "1") db.builds "config").bind Build.releaseId =
        some "rel_0" := by decide
    obtain ⟨first, first_eq, released⟩ := Option.bind_eq_some_iff.mp found
    obtain ⟨row, row_mem, -, typeKey, -⟩ := hits.mp ⟨first.id, "rel_0", first.variantId, db,
      (hit_iff hashed).mpr ⟨first, first_eq, released, rfl, rfl, rfl⟩⟩
    have others : ∀ row ∈ db.builds, row.typeKey ≠ "bench" := by decide
    exact others row row_mem typeKey

end HelixKit.Backend.BuildRuns
