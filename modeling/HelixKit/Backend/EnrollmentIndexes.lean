/-
Purpose: What the relay of enrollments still holds of an enrollment that is over, and
  whether one that is not can be found by its code.
Trusted boundary: none
Main exports: codes_find
-/
import HelixKit.Backend.EnrollmentReveal
import Mathlib.Data.List.GetD

namespace HelixKit.Backend.EnrollmentRelay

open HelixKit.Runs HelixKit.Backend.JsText

/-! ## What is held of an enrollment that is over -/

/-- The plaintexts that are reached from the record: in the request and beside it. -/
def Enrollment.plaintexts (enrollment : Enrollment) : List String :=
  enrollment.request.credential :: enrollment.credential.toList

/-- The enrollment has been revealed or denied. -/
def Enrollment.Over (enrollment : Enrollment) : Prop :=
  enrollment.status = .revealed ∨ enrollment.status = .denied

/-- The plaintext of an enrollment that has been revealed or denied is not reached. -/
def Destroyed (relay : Relay) : Prop :=
  ∀ id enrollment, relay.Holds id enrollment → enrollment.Over →
    enrollment.request.credential ∉ enrollment.plaintexts

/-- A sweep leaves nothing of what is past its window and a discard nothing of what was under the
id; each code belongs to an enrollment that is held. -/
structure Traceless (relay : Relay) : Prop where
  swept : ∀ now id enrollment, (relay.sweep now).Holds id enrollment → now < enrollment.expiresAt
  codes : ∀ now code id, (relay.sweep now).Leads code id →
    ∃ enrollment, (relay.sweep now).Holds id enrollment ∧ enrollment.userCode = code
  discarded : ∀ id enrollment, ¬(relay.discard id).Holds id enrollment
  uncoded : ∀ id code, ¬(relay.discard id).Leads code id

/-- The call neither reveals nor denies an enrollment. -/
def Keeps (relay : Relay) : Op → Prop
  | .deny now userCode =>
    ∀ enrollment, (relay.find now userCode).2 = some enrollment → enrollment.status ≠ .pending
  | .reveal now userCode userId =>
    ∀ enrollment, (relay.find now userCode).2 = some enrollment →
      enrollment.userId = some userId → enrollment.status = .approved →
      enrollment.credential = none
  | _ => True

/-- An id that is drawn for a new enrollment is not held, unless with the same code. -/
def DrawsId (relay : Relay) : Op → Prop
  | .create swept _ idBytes codeBytes _ =>
    ∀ enrollment, (relay.sweep swept).Holds (hex idBytes) enrollment →
      enrollment.userCode = randomCode codeBytes
  | _ => True

theorem holds_put_self (relay : Relay) (changed : Enrollment) :
    (relay.put changed).Holds changed.id changed :=
  holds_put.mpr (Or.inl ⟨rfl, rfl⟩)

theorem holds_discard {relay : Relay} {id other : String} {enrollment : Enrollment} :
    (relay.discard id).Holds other enrollment ↔ other ≠ id ∧ relay.Holds other enrollment := by
  simp only [Relay.discard]
  cases found : relay.byId.lookup id with
  | none =>
    constructor
    · intro holds
      refine ⟨?_, holds⟩
      rintro rfl
      rw [Relay.Holds, found] at holds
      cases holds
    · exact And.right
  | some held =>
    simp only [Relay.Holds]
    by_cases same : other = id
    · subst same
      simp
    · simp [same, AList.lookup_erase_ne same]

/-- After a call, what is held was held after its sweep, or is what the call made of it. -/
inductive Stepped (swept : Relay) : Relay → Prop where
  | same : Stepped swept swept
  | changed (id : String) (enrollment changed : Enrollment)
      (holds : swept.Holds id enrollment) (object : changed.object = enrollment.object)
      (sameId : changed.id = enrollment.id) (code : changed.userCode = enrollment.userCode)
      (expires : changed.expiresAt = enrollment.expiresAt) : Stepped swept (swept.put changed)

theorem approve_stepped (relay : Relay) (now : Int) (userCode userId : String) (hours : Int) :
    Stepped (relay.sweep now) (relay.approve now userCode userId hours).1 := by
  simp only [Relay.approve]
  cases found : (relay.find now userCode).2 with
  | none => exact .same
  | some enrollment =>
    obtain ⟨id, holds⟩ := find_holds found
    simp only
    split
    · exact .same
    · exact .changed id enrollment _ holds rfl rfl rfl rfl

theorem deny_stepped (relay : Relay) (now : Int) (userCode : String) :
    Stepped (relay.sweep now) (relay.deny now userCode).1 := by
  simp only [Relay.deny]
  cases found : (relay.find now userCode).2 with
  | none => exact .same
  | some enrollment =>
    obtain ⟨id, holds⟩ := find_holds found
    simp only
    split
    · exact .same
    · exact .changed id enrollment _ holds rfl rfl rfl rfl

theorem reveal_stepped (relay : Relay) (now : Int) (userCode userId : String) :
    Stepped (relay.sweep now) (relay.reveal now userCode userId).1 := by
  cases result : (relay.reveal now userCode userId).2 with
  | error refused =>
    rw [reveal_error result]
    exact .same
  | ok shown =>
    obtain ⟨enrollment, found, -, -, -, after⟩ := reveal_ok result
    obtain ⟨id, holds⟩ := find_holds found
    rw [after]
    exact .changed id enrollment _ holds rfl rfl rfl rfl

/-- A record that is over always reaches its plaintext. -/
theorem destroyed_iff {relay : Relay} :
    Destroyed relay ↔ ∀ id enrollment, relay.Holds id enrollment → ¬enrollment.Over := by
  constructor
  · intro destroyed id enrollment holds ended
    exact destroyed id enrollment holds ended List.mem_cons_self
  · intro none_ id enrollment holds ended
    exact absurd ended (none_ id enrollment holds)

theorem Destroyed.sweep {relay : Relay} (destroyed : Destroyed relay) (now : Int) :
    Destroyed (relay.sweep now) := by
  intro id enrollment holds
  exact destroyed id enrollment (holds_sweep.mp holds).1

theorem Destroyed.put {relay : Relay} (destroyed : Destroyed relay) {changed : Enrollment}
    (kept : ¬changed.Over) : Destroyed (relay.put changed) := by
  intro id enrollment holds ended
  rcases holds_put.mp holds with ⟨-, rfl⟩ | ⟨-, old⟩
  · exact absurd ended kept
  · exact destroyed id enrollment old ended

theorem Destroyed.approve {relay : Relay} (destroyed : Destroyed relay) (now : Int)
    (userCode userId : String) (hours : Int) :
    Destroyed (relay.approve now userCode userId hours).1 := by
  have swept := destroyed.sweep now
  simp only [Relay.approve]
  cases found : (relay.find now userCode).2 with
  | none => exact swept
  | some enrollment =>
    simp only
    split
    · exact swept
    · apply swept.put
      simp [Enrollment.Over]

variable {now : Int}

theorem deny_keeps {relay : Relay} {userCode : String} (keeps : Keeps relay (.deny now userCode)) :
    (relay.deny now userCode).1 = relay.sweep now := by
  simp only [Relay.deny]
  cases found : (relay.find now userCode).2 with
  | none => rfl
  | some enrollment =>
    simp only [if_pos (keeps enrollment found)]
    rfl

theorem reveal_keeps {relay : Relay} {userCode userId : String}
    (keeps : Keeps relay (.reveal now userCode userId)) :
    (relay.reveal now userCode userId).1 = relay.sweep now := by
  cases result : (relay.reveal now userCode userId).2 with
  | error refused => exact reveal_error result
  | ok shown =>
    obtain ⟨enrollment, found, owned, approved, has, -⟩ := reveal_ok result
    have gone := keeps enrollment found owned approved
    rw [has] at gone
    cases gone

theorem Destroyed.step {relay : Relay} (destroyed : Destroyed relay) (ttlMs : Int) {op : Op}
    (keeps : Keeps relay op) : Destroyed (step ttlMs relay op) := by
  cases op with
  | create swept made idBytes codeBytes request =>
    intro id enrollment holds ended
    rcases holds_create holds with ⟨-, rfl⟩ | ⟨-, old⟩
    · simp [Enrollment.Over] at ended
    · exact destroyed.sweep swept id enrollment old ended
  | summary now userCode => exact destroyed.sweep now
  | approve now userCode userId hours => exact destroyed.approve now userCode userId hours
  | deny now userCode =>
    rw [EnrollmentRelay.step, deny_keeps keeps]
    exact destroyed.sweep now
  | reveal now userCode userId =>
    rw [EnrollmentRelay.step, reveal_keeps keeps]
    exact destroyed.sweep now
  | poll now id => exact destroyed.sweep now
  | discard id =>
    intro other enrollment holds
    exact destroyed other enrollment (holds_discard.mp holds).2

/-- A call that reveals or denies leaves the plaintext in the request. -/
theorem keeps_of_destroyed {ttlMs : Int} {relay : Relay} {op : Op}
    (destroyed : Destroyed (step ttlMs relay op)) : Keeps relay op := by
  have none_ := destroyed_iff.mp destroyed
  cases op with
  | create swept made idBytes codeBytes request => trivial
  | summary now userCode => trivial
  | approve now userCode userId hours => trivial
  | deny now userCode =>
    intro enrollment found pending
    have holds := holds_put_self (relay.find now userCode).1
      { enrollment with
        status := .denied
        credential := none }
    have after : (EnrollmentRelay.step ttlMs relay (.deny now userCode)).Holds enrollment.id
        { enrollment with
          status := .denied
          credential := none } := by
      simpa [EnrollmentRelay.step, Relay.deny, found, pending] using holds
    exact none_ _ _ after (Or.inr rfl)
  | reveal now userCode userId =>
    intro enrollment found owned approved
    cases has : enrollment.credential with
    | none => rfl
    | some shown =>
      have holds := holds_put_self (relay.find now userCode).1
        { enrollment with
          credential := none
          status := .revealed }
      have after : (EnrollmentRelay.step ttlMs relay (.reveal now userCode userId)).Holds
          enrollment.id
          { enrollment with
            credential := none
            status := .revealed } := by
        simpa [EnrollmentRelay.step, Relay.reveal, found, owned, approved, has] using holds
      exact absurd (Or.inl rfl) (none_ _ _ after)
  | poll now id => trivial
  | discard id => trivial

/-- Each code belongs to an enrollment that is held, under its own id. -/
structure Backed (relay : Relay) : Prop where
  keyed : ∀ id enrollment, relay.Holds id enrollment → enrollment.id = id
  backed : ∀ code id, relay.Leads code id →
    ∃ enrollment, relay.Holds id enrollment ∧ enrollment.userCode = code

theorem Backed.start : Backed {} := by
  constructor
  · intro id enrollment holds
    simp [Relay.Holds] at holds
  · intro code id leads
    simp [Relay.Leads] at leads

theorem Backed.sweep {relay : Relay} (backed : Backed relay) (now : Int) :
    Backed (relay.sweep now) := by
  constructor
  · intro id enrollment holds
    exact backed.keyed id enrollment (holds_sweep.mp holds).1
  · intro code id leads
    obtain ⟨led, kept⟩ := leads_sweep.mp leads
    obtain ⟨enrollment, holds, same⟩ := backed.backed code id led
    refine ⟨enrollment, holds_sweep.mpr ⟨holds, ?_⟩, same⟩
    by_contra late
    exact kept id enrollment holds (Int.not_lt.mp late) same

theorem Backed.stepped {swept after : Relay} (backed : Backed swept)
    (stepped : Stepped swept after) : Backed after := by
  cases stepped with
  | same => exact backed
  | changed id enrollment changed holds object sameId code expires =>
    have key : changed.id = id := sameId.trans (backed.keyed id enrollment holds)
    constructor
    · intro other found held
      rcases holds_put.mp held with ⟨rfl, rfl⟩ | ⟨-, old⟩
      · rfl
      · exact backed.keyed other found old
    · intro given other leads
      obtain ⟨found, held, same⟩ := backed.backed given other leads
      by_cases here : other = changed.id
      · subst here
        have found_eq : found = enrollment := by
          rw [key] at held
          exact Option.some.inj (held.symm.trans holds)
        refine ⟨changed, holds_put_self _ _, ?_⟩
        rw [code, ← found_eq, same]
      · exact ⟨found, holds_put.mpr (Or.inr ⟨here, held⟩), same⟩

theorem Backed.create {relay : Relay} (backed : Backed relay) {ttlMs swept made : Int}
    {idBytes codeBytes : List UInt8} {request : EnrollmentRequest}
    (draws : DrawsId relay (.create swept made idBytes codeBytes request)) :
    Backed (relay.create ttlMs swept made idBytes codeBytes request).1 := by
  have before := backed.sweep swept
  have new : (relay.create ttlMs swept made idBytes codeBytes request).1.Holds (hex idBytes)
      { object := relay.created
        id := hex idBytes
        userCode := randomCode codeBytes
        request
        status := .pending
        userId := none
        approvedDurationHours := none
        credential := some request.credential
        expiresAt := made + ttlMs } := by
    simp only [Relay.Holds, Relay.create]
    exact AList.lookup_insert _
  constructor
  · intro id enrollment holds
    rcases holds_create holds with ⟨rfl, rfl⟩ | ⟨-, old⟩
    · rfl
    · exact before.keyed id enrollment old
  · intro code id leads
    simp only [Relay.Leads, Relay.create] at leads
    by_cases same : code = randomCode codeBytes
    · subst same
      rw [AList.lookup_insert, Option.some.injEq] at leads
      subst leads
      exact ⟨_, new, rfl⟩
    · rw [AList.lookup_insert_ne same] at leads
      obtain ⟨enrollment, holds, coded⟩ := before.backed code id leads
      have other : id ≠ hex idBytes := by
        rintro rfl
        exact same (coded.symm.trans (draws enrollment holds))
      refine ⟨enrollment, ?_, coded⟩
      simp only [Relay.Holds, Relay.create] at holds ⊢
      rw [AList.lookup_insert_ne other]
      exact holds

theorem leads_discard {relay : Relay} {id code other : String}
    (leads : (relay.discard id).Leads code other) :
    relay.Leads code other ∧
      ∀ enrollment, relay.Holds id enrollment → enrollment.userCode ≠ code := by
  simp only [Relay.discard] at leads
  cases found : relay.byId.lookup id with
  | none =>
    rw [found] at leads
    refine ⟨leads, ?_⟩
    intro enrollment holds
    rw [Relay.Holds, found] at holds
    cases holds
  | some held =>
    rw [found] at leads
    simp only [Relay.Leads] at leads ⊢
    by_cases same : code = held.userCode
    · subst same
      simp at leads
    · rw [AList.lookup_erase_ne same] at leads
      refine ⟨leads, ?_⟩
      intro enrollment holds
      rw [Relay.Holds, found, Option.some.injEq] at holds
      subst holds
      exact Ne.symm same

theorem Backed.discard {relay : Relay} (backed : Backed relay) (id : String) :
    Backed (relay.discard id) := by
  constructor
  · intro other enrollment holds
    exact backed.keyed other enrollment (holds_discard.mp holds).2
  · intro code other leads
    obtain ⟨led, kept⟩ := leads_discard leads
    obtain ⟨enrollment, holds, same⟩ := backed.backed code other led
    refine ⟨enrollment, holds_discard.mpr ⟨?_, holds⟩, same⟩
    rintro rfl
    exact kept enrollment holds same

theorem Backed.step {relay : Relay} (backed : Backed relay) (ttlMs : Int) {op : Op}
    (draws : DrawsId relay op) : Backed (step ttlMs relay op) := by
  cases op with
  | create swept made idBytes codeBytes request => exact backed.create draws
  | summary now userCode => exact backed.sweep now
  | approve now userCode userId hours =>
    exact (backed.sweep now).stepped (approve_stepped relay now userCode userId hours)
  | deny now userCode => exact (backed.sweep now).stepped (deny_stepped relay now userCode)
  | reveal now userCode userId =>
    exact (backed.sweep now).stepped (reveal_stepped relay now userCode userId)
  | poll now id => exact backed.sweep now
  | discard id => exact backed.discard id

theorem Backed.traceless {relay : Relay} (backed : Backed relay) : Traceless relay := by
  constructor
  · intro now id enrollment holds
    exact (holds_sweep.mp holds).2
  · intro now code id leads
    exact (backed.sweep now).backed code id leads
  · intro id enrollment holds
    exact (holds_discard.mp holds).1 rfl
  · intro id code leads
    obtain ⟨enrollment, holds, -⟩ := (backed.discard id).backed code id leads
    exact (holds_discard.mp holds).1 rfl

/-- In every run whose draws of ids are new: the plaintext of what is revealed or denied is never
reached exactly if nothing is; and what is swept or discarded leaves no trace. -/
theorem plaintext_destroyed (ttlMs : Int) (ops : List Op)
    (draws : Along (step ttlMs) DrawsId {} ops) :
    (Along (step ttlMs) (fun relay op => Destroyed (step ttlMs relay op)) {} ops ↔
        Along (step ttlMs) Keeps {} ops) ∧
      Along (step ttlMs) (fun relay op => Traceless (step ttlMs relay op)) {} ops := by
  constructor
  · constructor
    · intro destroyed
      apply destroyed.always (fun _ => True) _ _ trivial
      · intro relay op _ _
        trivial
      · intro relay op _ here
        exact keeps_of_destroyed here
    · intro keeps
      apply keeps.always Destroyed
      · intro relay op destroyed here
        exact destroyed.step ttlMs here
      · intro relay op destroyed here
        exact destroyed.step ttlMs here
      · intro id enrollment holds
        simp [Relay.Holds] at holds
  · apply draws.always Backed
    · intro relay op backed here
      exact backed.step ttlMs here
    · intro relay op backed here
      exact (backed.step ttlMs here).traceless
    · exact Backed.start

/-- What one device asks for. -/
def asked : EnrollmentRequest where
  deviceId := "D123"
  username := "alice"
  linuxUid := 200001
  credentialId := "D7K4P9QX"
  credential := "hlx1_secret"
  durationHours := 24

/-- It is created at 0, found, and swept at 2000. -/
def sweptRun : List Op :=
  [.create 0 0 [1] [0, 1, 2, 3, 4, 5, 6, 7] asked, .summary 10 "abcdefgh", .poll 2000 "01"]

theorem plaintext_destroyed_swept :
    Along (step 1000) (fun relay op => Destroyed (step 1000 relay op)) {} sweptRun := by
  have draws : Along (step 1000) DrawsId {} sweptRun := by
    refine ⟨?_, trivial, trivial, trivial⟩
    intro enrollment holds
    simp [Relay.Holds, Relay.sweep, AList.lookup] at holds
  exact (plaintext_destroyed 1000 sweptRun draws).1.mpr ⟨trivial, trivial, trivial, trivial⟩

/-- It is approved and revealed. -/
def revealedRun : List Op :=
  [.create 0 0 [1] [0, 1, 2, 3, 4, 5, 6, 7] asked, .approve 10 "ABCDEFGH" "alice" 24,
    .reveal 20 "ABCDEFGH" "alice"]

/-- After the reveal the request still holds the plaintext. -/
theorem revealed_plaintext_held :
    ¬ ∀ (ttlMs : Int) (ops : List Op),
      Along (step ttlMs) (fun relay op => Destroyed (step ttlMs relay op)) {} ops := by
  intro all
  obtain ⟨-, -, destroyed, -⟩ := all 1000 revealedRun
  have holds : (run (step 1000) {} revealedRun).byId.lookup "01" = some
      { object := 0
        id := "01"
        userCode := "ABCDEFGH"
        request := asked
        status := .revealed
        userId := some "alice"
        approvedDurationHours := some 24
        credential := none
        expiresAt := 1000 } := by
    decide
  exact destroyed "01" _ holds (Or.inl rfl) List.mem_cons_self

/-! ## Whether an enrollment is found by its code -/

/-- What a device was given for its enrollment. -/
structure Issued where
  object : Nat
  id : String
  userCode : String
  expiresAt : Int
deriving Repr, DecidableEq

/-- The relay, and the enrollments that are neither discarded nor past their window at a sweep. -/
structure Observed where
  relay : Relay := {}
  live : List Issued := []

def Observed.swept (observed : Observed) (now : Int) : List Issued :=
  observed.live.filter fun issued => now < issued.expiresAt

def Observed.step (ttlMs : Int) (observed : Observed) (op : Op) : Observed where
  relay := EnrollmentRelay.step ttlMs observed.relay op
  live :=
    match op with
    | .create swept made idBytes codeBytes _ =>
      observed.swept swept ++
        [{ object := observed.relay.created
           id := hex idBytes
           userCode := randomCode codeBytes
           expiresAt := made + ttlMs }]
    | .summary now _ | .approve now _ _ _ | .deny now _ | .reveal now _ _ | .poll now _ =>
      observed.swept now
    | .discard id => observed.live.filter fun issued => issued.id ≠ id

/-- Each live enrollment is found by its code as long as it is in its window. -/
def Findable (observed : Observed) : Prop :=
  ∀ issued ∈ observed.live, ∀ now < issued.expiresAt,
    ∃ enrollment, (observed.relay.find now issued.userCode).2 = some enrollment ∧
      enrollment.object = issued.object

/-- The id and the code that are drawn for a new enrollment are not held. -/
def Fresh (observed : Observed) : Op → Prop
  | .create swept _ idBytes codeBytes _ =>
    (∀ enrollment, ¬(observed.relay.sweep swept).Holds (hex idBytes) enrollment) ∧
      ∀ id, ¬(observed.relay.sweep swept).Leads (randomCode codeBytes) id
  | _ => True

theorem codeAlphabet_mem (byte : UInt8) :
    codeAlphabet.getD (byte.toNat % codeAlphabet.length) 'A' ∈ codeAlphabet := by
  have bound : byte.toNat % codeAlphabet.length < codeAlphabet.length :=
    Nat.mod_lt _ (by decide)
  rw [List.getD_eq_getElem _ _ bound]
  exact List.getElem_mem bound

/-- A drawn code is looked up as it is. -/
theorem randomCode_typed (bytes : List UInt8) :
    toUpperCase (trim (randomCode bytes)) = randomCode bytes := by
  have code : ∀ c ∈ (randomCode bytes).toList, c ∈ codeAlphabet := by
    intro c member
    simp only [randomCode, String.toList_ofList, List.mem_map] at member
    obtain ⟨byte, -, rfl⟩ := member
    exact codeAlphabet_mem byte
  rw [trim_code code, toUpperCase_code code]

/-- The record of a live enrollment is held under its id, where its code leads. -/
structure Recorded (relay : Relay) (issued : Issued) : Prop where
  holds : ∃ enrollment, relay.Holds issued.id enrollment ∧ enrollment.object = issued.object ∧
    enrollment.userCode = issued.userCode ∧ enrollment.expiresAt = issued.expiresAt
  leads : relay.Leads issued.userCode issued.id
  typed : toUpperCase (trim issued.userCode) = issued.userCode

/-- The two maps are inverse to each other. -/
structure Inverse (observed : Observed) : Prop where
  recorded : ∀ issued ∈ observed.live, Recorded observed.relay issued
  codes : ∀ id enrollment, observed.relay.Holds id enrollment →
    observed.relay.Leads enrollment.userCode id
  keyed : ∀ id enrollment, observed.relay.Holds id enrollment → enrollment.id = id

variable {observed : Observed}

/-- A sweep takes the code of no enrollment that stays. -/
theorem Inverse.kept (inverse : Inverse observed) {code id : String}
    {enrollment : Enrollment} (leads : observed.relay.Leads code id)
    (holds : observed.relay.Holds id enrollment) (early : now < enrollment.expiresAt) :
    (observed.relay.sweep now).Leads code id := by
  apply leads_sweep.mpr
  refine ⟨leads, ?_⟩
  rintro other found held late rfl
  have same : other = id := Option.some.inj ((inverse.codes other found held).symm.trans leads)
  subst same
  have equal : found = enrollment := Option.some.inj (held.symm.trans holds)
  subst equal
  exact Int.not_lt.mpr late early

theorem Inverse.recorded_sweep (inverse : Inverse observed)
    {issued : Issued} (member : issued ∈ observed.swept now) :
    Recorded (observed.relay.sweep now) issued := by
  obtain ⟨inside, early⟩ := List.mem_filter.mp member
  obtain ⟨⟨enrollment, holds, object, code, expires⟩, leads, typed⟩ :=
    inverse.recorded issued inside
  have window : now < enrollment.expiresAt := by
    rw [expires]
    exact of_decide_eq_true early
  exact ⟨⟨enrollment, holds_sweep.mpr ⟨holds, window⟩, object, code, expires⟩,
    inverse.kept leads holds window, typed⟩

theorem Inverse.sweep (inverse : Inverse observed) (now : Int) :
    Inverse ⟨observed.relay.sweep now, observed.swept now⟩ := by
  constructor
  · intro issued member
    exact inverse.recorded_sweep member
  · intro id enrollment holds
    obtain ⟨held, early⟩ := holds_sweep.mp holds
    exact inverse.kept (inverse.codes id enrollment held) held early
  · intro id enrollment holds
    exact inverse.keyed id enrollment (holds_sweep.mp holds).1

theorem Inverse.stepped {swept after : Relay} {live : List Issued}
    (inverse : Inverse ⟨swept, live⟩) (stepped : Stepped swept after) :
    Inverse ⟨after, live⟩ := by
  cases stepped with
  | same => exact inverse
  | changed id enrollment changed holds object sameId code expires =>
    have key : changed.id = id := sameId.trans (inverse.keyed id enrollment holds)
    constructor
    · intro issued member
      obtain ⟨⟨found, held, sameObject, sameCode, sameExpires⟩, leads, typed⟩ :=
        inverse.recorded issued member
      refine ⟨?_, leads, typed⟩
      by_cases here : issued.id = changed.id
      · have equal : found = enrollment := by
          rw [here, key] at held
          exact Option.some.inj (held.symm.trans holds)
        subst equal
        exact ⟨changed, holds_put.mpr (Or.inl ⟨here, rfl⟩), object.trans sameObject,
          code.trans sameCode, expires.trans sameExpires⟩
      · exact ⟨found, holds_put.mpr (Or.inr ⟨here, held⟩), sameObject, sameCode, sameExpires⟩
    · intro other found held
      rcases holds_put.mp held with ⟨rfl, rfl⟩ | ⟨-, old⟩
      · rw [code, key]
        exact inverse.codes id enrollment holds
      · exact inverse.codes other found old
    · intro other found held
      rcases holds_put.mp held with ⟨rfl, rfl⟩ | ⟨-, old⟩
      · rfl
      · exact inverse.keyed other found old

theorem leads_create {relay : Relay} {ttlMs swept made : Int} {idBytes codeBytes : List UInt8}
    {request : EnrollmentRequest} {code id : String} :
    (relay.create ttlMs swept made idBytes codeBytes request).1.Leads code id ↔
      (code = randomCode codeBytes ∧ id = hex idBytes) ∨
        (code ≠ randomCode codeBytes ∧ (relay.sweep swept).Leads code id) := by
  simp only [Relay.Leads, Relay.create]
  by_cases same : code = randomCode codeBytes
  · subst same
    simp [eq_comm]
  · simp [same, AList.lookup_insert_ne same]

theorem Inverse.create (inverse : Inverse observed)
    (ttlMs : Int) {swept made : Int} {idBytes codeBytes : List UInt8} {request : EnrollmentRequest}
    (fresh : Fresh observed (.create swept made idBytes codeBytes request)) :
    Inverse (observed.step ttlMs (.create swept made idBytes codeBytes request)) := by
  have before := inverse.sweep swept
  obtain ⟨newId, newCode⟩ := fresh
  have stays : ∀ id enrollment, (observed.relay.sweep swept).Holds id enrollment →
      (observed.relay.create ttlMs swept made idBytes codeBytes request).1.Holds id enrollment := by
    intro id enrollment holds
    have other : id ≠ hex idBytes := by
      rintro rfl
      exact newId enrollment holds
    simp only [Relay.Holds, Relay.create] at holds ⊢
    rw [AList.lookup_insert_ne other]
    exact holds
  have leads : ∀ code id, (observed.relay.sweep swept).Leads code id →
      (observed.relay.create ttlMs swept made idBytes codeBytes request).1.Leads code id := by
    intro code id led
    apply leads_create.mpr
    refine Or.inr ⟨?_, led⟩
    rintro rfl
    exact newCode id led
  constructor
  · intro issued member
    rcases List.mem_append.mp member with old | new
    · obtain ⟨⟨enrollment, holds, rest⟩, led, typed⟩ := before.recorded issued old
      exact ⟨⟨enrollment, stays _ _ holds, rest⟩, leads _ _ led, typed⟩
    · rw [List.mem_singleton.mp new]
      refine ⟨⟨_, AList.lookup_insert _, rfl, rfl, rfl⟩, ?_, randomCode_typed codeBytes⟩
      exact leads_create.mpr (Or.inl ⟨rfl, rfl⟩)
  · intro id enrollment holds
    rcases holds_create holds with ⟨rfl, rfl⟩ | ⟨-, old⟩
    · exact leads_create.mpr (Or.inl ⟨rfl, rfl⟩)
    · exact leads _ _ (before.codes id enrollment old)
  · intro id enrollment holds
    rcases holds_create holds with ⟨rfl, rfl⟩ | ⟨-, old⟩
    · rfl
    · exact before.keyed id enrollment old

/-- A discard takes the code of no other enrollment. -/
theorem Inverse.discard (inverse : Inverse observed) (ttlMs : Int)
    (id : String) : Inverse (observed.step ttlMs (.discard id)) := by
  have leads : ∀ code other, observed.relay.Leads code other → other ≠ id →
      (observed.relay.discard id).Leads code other := by
    intro code other led apart
    simp only [Relay.discard]
    cases found : observed.relay.byId.lookup id with
    | none => exact led
    | some held =>
      have different : code ≠ held.userCode := by
        rintro rfl
        exact apart (Option.some.inj (led.symm.trans (inverse.codes id held found)))
      simp only [Relay.Leads] at led ⊢
      rw [AList.lookup_erase_ne different]
      exact led
  constructor
  · intro issued member
    obtain ⟨inside, apart⟩ := List.mem_filter.mp member
    obtain ⟨⟨enrollment, holds, rest⟩, led, typed⟩ := inverse.recorded issued inside
    have other : issued.id ≠ id := of_decide_eq_true apart
    exact ⟨⟨enrollment, holds_discard.mpr ⟨other, holds⟩, rest⟩, leads _ _ led other, typed⟩
  · intro other enrollment holds
    obtain ⟨apart, held⟩ := holds_discard.mp holds
    exact leads _ _ (inverse.codes other enrollment held) apart
  · intro other enrollment holds
    exact inverse.keyed other enrollment (holds_discard.mp holds).2

theorem Inverse.step {observed : Observed} (inverse : Inverse observed) (ttlMs : Int) {op : Op}
    (fresh : Fresh observed op) : Inverse (observed.step ttlMs op) := by
  cases op with
  | create swept made idBytes codeBytes request => exact inverse.create ttlMs fresh
  | summary now userCode => exact inverse.sweep now
  | approve now userCode userId hours =>
    exact (inverse.sweep now).stepped (approve_stepped observed.relay now userCode userId hours)
  | deny now userCode =>
    exact (inverse.sweep now).stepped (deny_stepped observed.relay now userCode)
  | reveal now userCode userId =>
    exact (inverse.sweep now).stepped (reveal_stepped observed.relay now userCode userId)
  | poll now id => exact inverse.sweep now
  | discard id => exact inverse.discard ttlMs id

theorem Inverse.findable (inverse : Inverse observed) :
    Findable observed := by
  intro issued member now early
  obtain ⟨⟨enrollment, holds, object, code, expires⟩, leads, typed⟩ :=
    inverse.recorded issued member
  have window : now < enrollment.expiresAt := by
    rw [expires]
    exact early
  have led : (observed.relay.sweep now).Leads (toUpperCase (trim issued.userCode)) issued.id := by
    rw [typed]
    exact inverse.kept leads holds window
  have held := holds_sweep.mpr ⟨holds, window⟩
  exact ⟨enrollment, Option.bind_eq_some_iff.mpr ⟨issued.id, led, held⟩, object⟩

/-- In every run in which each create draws an id and a code that are not held, every live
enrollment is found by its code, and the code finds no other. -/
theorem codes_find (ttlMs : Int) (ops : List Op)
    (fresh : Along (Observed.step ttlMs) Fresh {} ops) :
    Findable (run (Observed.step ttlMs) {} ops) := by
  have inverse : Inverse (run (Observed.step ttlMs) {} ops) := by
    apply fresh.invariant Inverse
    · intro observed op holds here
      exact holds.step ttlMs here
    · constructor
      · simp
      · intro id enrollment holds
        simp [Relay.Holds] at holds
      · intro id enrollment holds
        simp [Relay.Holds] at holds
  exact inverse.findable

theorem codes_find_two :
    Findable (run (Observed.step 1000) {}
      [.create 0 0 [1] [0, 1, 2, 3, 4, 5, 6, 7] asked, .create 5 5 [2] [7, 6, 5, 4, 3, 2, 1, 0] asked,
        .discard "01"]) := by
  apply codes_find
  refine ⟨⟨?_, ?_⟩, ⟨?_, ?_⟩, trivial, trivial⟩
  · intro enrollment holds
    cases holds
  · intro id leads
    cases leads
  · intro enrollment holds
    cases holds
  · intro id leads
    cases leads

/-- Two enrollments with one code; the first is discarded. -/
def collided : List Op :=
  [.create 0 0 [1] [0, 1, 2, 3, 4, 5, 6, 7] asked, .create 5 5 [2] [0, 1, 2, 3, 4, 5, 6, 7] asked,
    .discard "01"]

/-- With the first enrollment the second one's code is gone. -/
theorem collided_code_lost :
    ¬ ∀ (ttlMs : Int) (ops : List Op), Findable (run (Observed.step ttlMs) {} ops) := by
  intro all
  have second : ({ object := 1, id := "02", userCode := "ABCDEFGH", expiresAt := 1005 } : Issued) ∈
      (run (Observed.step 1000) {} collided).live := by
    decide
  obtain ⟨enrollment, found, -⟩ := all 1000 collided _ second 10 (by decide)
  have lost : ((run (Observed.step 1000) {} collided).relay.find 10 "ABCDEFGH").2 = none := by
    decide
  rw [lost] at found
  cases found

end HelixKit.Backend.EnrollmentRelay
