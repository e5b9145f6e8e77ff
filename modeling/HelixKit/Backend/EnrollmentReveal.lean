/-
Purpose: What the relay of enrollments lets happen to a credential: it is shown once, to
  the user whose approval was recorded, before the enrollment expires.
Trusted boundary: none
Main exports: history_lawful
-/
import HelixKit.Backend.EnrollmentRelay
import HelixKit.Lib.Runs

namespace HelixKit.Backend.EnrollmentRelay

open HelixKit.Runs

/-! ## Histories -/

/-- What happens in a call: a sweep reads the clock, or an enrollment changes. -/
inductive Event where
  | clock (now : Int)
  | created (object : Nat) (credential : String) (expiresAt : Int)
  | approved (object : Nat) (userId : String)
  | denied (object : Nat)
  | revealed (object : Nat) (userId credential : String)
deriving Repr, DecidableEq

/-- The enrollment that an event is about. -/
def Event.object? : Event → Option Nat
  | .clock _ => none
  | .created object _ _ => some object
  | .approved object _ => some object
  | .denied object => some object
  | .revealed object _ _ => some object

/-- What happens in a call, the latest first. -/
def happened (ttlMs : Int) (relay : Relay) : Op → List Event
  | .create swept made _ _ request =>
    [.created relay.created request.credential (made + ttlMs), .clock swept]
  | .summary now _ => [.clock now]
  | .approve now userCode userId hours =>
    match (relay.approve now userCode userId hours).2, (relay.find now userCode).2 with
    | some _, some enrollment => [.approved enrollment.object userId, .clock now]
    | _, _ => [.clock now]
  | .deny now userCode =>
    match (relay.deny now userCode).2, (relay.find now userCode).2 with
    | true, some enrollment => [.denied enrollment.object, .clock now]
    | _, _ => [.clock now]
  | .reveal now userCode userId =>
    match (relay.reveal now userCode userId).2, (relay.find now userCode).2 with
    | .ok credential, some enrollment =>
      [.revealed enrollment.object userId credential, .clock now]
    | _, _ => [.clock now]
  | .poll now _ => [.clock now]
  | .discard _ => []

/-- The relay, and what has happened, the latest first. -/
structure History where
  relay : Relay := {}
  events : List Event := []

def History.step (ttlMs : Int) (history : History) (op : Op) : History where
  relay := EnrollmentRelay.step ttlMs history.relay op
  events := happened ttlMs history.relay op ++ history.events

/-- The enrollment was created with this credential, and no sweep since then has read a clock past
its window. -/
def Within (events : List Event) (object : Nat) (credential : String) (expiresAt : Int) : Prop :=
  ∃ since before, events = since ++ .created object credential expiresAt :: before ∧
    ∀ now, .clock now ∈ since → now < expiresAt

/-- What must have happened, and must not, for an event to happen. -/
def Justified : Event → List Event → Prop
  | .revealed object userId credential, earlier =>
    (∃ expiresAt, Within earlier object credential expiresAt) ∧
      .approved object userId ∈ earlier ∧ .denied object ∉ earlier ∧
      ∀ other shown, .revealed object other shown ∉ earlier
  | .approved object _, earlier =>
    (∀ other, .approved object other ∉ earlier) ∧ .denied object ∉ earlier ∧
      ∀ other shown, .revealed object other shown ∉ earlier
  | .denied object, earlier =>
    (∀ other, .approved object other ∉ earlier) ∧
      ∀ other shown, .revealed object other shown ∉ earlier
  | .created object _ _, earlier => ∀ event ∈ earlier, event.object? ≠ some object
  | .clock _, _ => True

/-- Each event is justified by those before it. -/
def Lawful : List Event → Prop
  | [] => True
  | event :: earlier => Justified event earlier ∧ Lawful earlier

/-! ## What the relay knows of an enrollment -/

/-- The record of an enrollment says what has happened to it. -/
structure Known (events : List Event) (enrollment : Enrollment) : Prop where
  within : Within events enrollment.object enrollment.request.credential enrollment.expiresAt
  approved : ∀ userId,
    .approved enrollment.object userId ∈ events ↔ enrollment.userId = some userId
  denied : .denied enrollment.object ∈ events ↔ enrollment.status = .denied
  revealed : (∃ userId shown, .revealed enrollment.object userId shown ∈ events) ↔
    enrollment.status = .revealed
  pending : enrollment.status = .pending → enrollment.userId = none
  credential : ∀ shown, enrollment.credential = some shown → shown = enrollment.request.credential

theorem Within.cons {events : List Event} {object : Nat} {credential : String} {expiresAt : Int}
    (within : Within events object credential expiresAt) (event : Event)
    (early : ∀ now, event = .clock now → now < expiresAt) :
    Within (event :: events) object credential expiresAt := by
  obtain ⟨since, before, split, all⟩ := within
  refine ⟨event :: since, before, by rw [split, List.cons_append], ?_⟩
  intro now member
  rcases List.mem_cons.mp member with here | later
  · exact early now here.symm
  · exact all now later

variable {enrollment : Enrollment}

/-- An event that is not about the enrollment changes nothing of it. -/
theorem Known.frame {events : List Event} (known : Known events enrollment) {event : Event}
    (other : event.object? ≠ some enrollment.object)
    (early : ∀ now, event = .clock now → now < enrollment.expiresAt) :
    Known (event :: events) enrollment := by
  have apart : ∀ about : Event, about.object? = some enrollment.object → about ≠ event := by
    rintro about same rfl
    exact other same
  constructor
  · exact known.within.cons event early
  · intro userId
    rw [List.mem_cons, or_iff_right (apart _ rfl)]
    exact known.approved userId
  · rw [List.mem_cons, or_iff_right (apart _ rfl)]
    exact known.denied
  · rw [← known.revealed]
    constructor
    · rintro ⟨userId, shown, member⟩
      rw [List.mem_cons, or_iff_right (apart _ rfl)] at member
      exact ⟨userId, shown, member⟩
    · rintro ⟨userId, shown, member⟩
      exact ⟨userId, shown, List.mem_cons_of_mem event member⟩
  · exact known.pending
  · exact known.credential

/-- What holds of a relay and of what has happened. -/
structure Inv (relay : Relay) (events : List Event) : Prop where
  known : ∀ id enrollment, relay.Holds id enrollment → Known events enrollment
  keyed : ∀ id enrollment, relay.Holds id enrollment → enrollment.id = id
  numbered : ∀ id enrollment, relay.Holds id enrollment → enrollment.object < relay.created
  distinct : ∀ id other first second, relay.Holds id first → relay.Holds other second →
    first.object = second.object → id = other
  past : ∀ event ∈ events, ∀ object, event.object? = some object → object < relay.created
  lawful : Lawful events

theorem Inv.start : Inv {} [] := by
  constructor
  · intro id enrollment holds
    simp [Relay.Holds] at holds
  · intro id enrollment holds
    simp [Relay.Holds] at holds
  · intro id enrollment holds
    simp [Relay.Holds] at holds
  · intro id other first second holds
    simp [Relay.Holds] at holds
  · simp
  · trivial

/-- A sweep leaves only what is not past its window. -/
theorem Inv.sweep {relay : Relay} {events : List Event} (inv : Inv relay events) (now : Int) :
    Inv (relay.sweep now) (.clock now :: events) := by
  constructor
  · intro id enrollment holds
    obtain ⟨held, early⟩ := holds_sweep.mp holds
    apply (inv.known id enrollment held).frame
    · simp [Event.object?]
    · intro reading same
      cases same
      exact early
  · intro id enrollment holds
    exact inv.keyed id enrollment (holds_sweep.mp holds).1
  · intro id enrollment holds
    exact inv.numbered id enrollment (holds_sweep.mp holds).1
  · intro id other first second holds held
    exact inv.distinct id other first second (holds_sweep.mp holds).1 (holds_sweep.mp held).1
  · intro event member object about
    rcases List.mem_cons.mp member with rfl | old
    · simp [Event.object?] at about
    · exact inv.past event old object about
  · exact ⟨trivial, inv.lawful⟩

theorem holds_put {relay : Relay} {changed : Enrollment} {id : String} :
    (relay.put changed).Holds id enrollment ↔
      (id = changed.id ∧ enrollment = changed) ∨ (id ≠ changed.id ∧ relay.Holds id enrollment) := by
  simp only [Relay.Holds, Relay.put]
  by_cases same : id = changed.id
  · subst same
    simp [eq_comm]
  · simp [same, AList.lookup_insert_ne same]

/-- A held enrollment is changed, and the event says how. -/
theorem Inv.put {relay : Relay} {events : List Event} (inv : Inv relay events) {id : String}
    {changed : Enrollment} (holds : relay.Holds id enrollment) {event : Event}
    (known : Known (event :: events) changed) (justified : Justified event events)
    (object : changed.object = enrollment.object) (sameId : changed.id = enrollment.id)
    (about : event.object? = some enrollment.object) :
    Inv (relay.put changed) (event :: events) := by
  have key : changed.id = id := sameId.trans (inv.keyed id enrollment holds)
  have numbered := inv.numbered id enrollment holds
  constructor
  · intro other found held
    rcases holds_put.mp held with ⟨-, rfl⟩ | ⟨apart, old⟩
    · exact known
    · apply (inv.known other found old).frame
      · rw [about]
        intro same
        apply apart
        rw [key]
        exact inv.distinct other id found enrollment old holds (Option.some.inj same).symm
      · rintro now rfl
        simp [Event.object?] at about
  · intro other found held
    rcases holds_put.mp held with ⟨rfl, rfl⟩ | ⟨-, old⟩
    · rfl
    · exact inv.keyed other found old
  · intro other found held
    rcases holds_put.mp held with ⟨-, rfl⟩ | ⟨-, old⟩
    · rw [object]
      exact numbered
    · exact inv.numbered other found old
  · intro first second left right heldLeft heldRight same
    rcases holds_put.mp heldLeft with ⟨rfl, rfl⟩ | ⟨apart, old⟩
    · rcases holds_put.mp heldRight with ⟨rfl, -⟩ | ⟨-, older⟩
      · rfl
      · rw [key]
        exact inv.distinct id second enrollment right holds older (object ▸ same)
    · rcases holds_put.mp heldRight with ⟨rfl, rfl⟩ | ⟨-, older⟩
      · rw [key]
        exact inv.distinct first id left enrollment old holds (same.trans object)
      · exact inv.distinct first second left right old older same
  · intro other member number isAbout
    rcases List.mem_cons.mp member with rfl | old
    · rw [about] at isAbout
      exact Option.some.inj isAbout ▸ numbered
    · exact inv.past other old number isAbout
  · exact ⟨justified, inv.lawful⟩

/-- Some enrollments are no longer held. -/
theorem Inv.fewer {relay fewer : Relay} {events : List Event} (inv : Inv relay events)
    (created : fewer.created = relay.created)
    (held : ∀ id enrollment, fewer.Holds id enrollment → relay.Holds id enrollment) :
    Inv fewer events := by
  constructor
  · intro id enrollment holds
    exact inv.known id enrollment (held id enrollment holds)
  · intro id enrollment holds
    exact inv.keyed id enrollment (held id enrollment holds)
  · intro id enrollment holds
    rw [created]
    exact inv.numbered id enrollment (held id enrollment holds)
  · intro id other first second holds older
    exact inv.distinct id other first second (held id first holds) (held other second older)
  · rw [created]
    exact inv.past
  · exact inv.lawful

theorem Inv.discard {relay : Relay} {events : List Event} (inv : Inv relay events) (id : String) :
    Inv (relay.discard id) events := by
  simp only [Relay.discard]
  split
  · exact inv
  apply inv.fewer
  · rfl
  · intro other found holds
    simp only [Relay.Holds] at holds ⊢
    by_cases same : other = id
    · subst same
      simp at holds
    · rwa [AList.lookup_erase_ne same] at holds

/-- Nothing but its creation has happened to an enrollment that no earlier event is about. -/
theorem known_created {events : List Event} {object : Nat}
    {credential : String} {expiresAt : Int} (named : enrollment.object = object)
    (held : enrollment.request.credential = credential) (until_ : enrollment.expiresAt = expiresAt)
    (fresh : ∀ event ∈ events, event.object? ≠ some object)
    (pending : enrollment.status = .pending) (unowned : enrollment.userId = none)
    (given : enrollment.credential = some credential) :
    Known (.created object credential expiresAt :: events) enrollment := by
  subst named held until_
  have absent : ∀ event, event.object? = some enrollment.object → event ∉ events :=
    fun event about member => fresh event member about
  constructor
  · exact ⟨[], events, rfl, by simp⟩
  · intro userId
    rw [unowned]
    have never := absent (.approved enrollment.object userId) rfl
    simpa using never
  · rw [pending]
    have never := absent (.denied enrollment.object) rfl
    simpa using never
  · rw [pending]
    constructor
    · rintro ⟨userId, shown, member⟩
      have never := absent (.revealed enrollment.object userId shown) rfl
      rcases List.mem_cons.mp member with here | earlier
      · cases here
      · exact absurd earlier never
    · simp
  · intro _
    exact unowned
  · intro shown same
    rw [given, Option.some.injEq] at same
    exact same.symm

/-- A new enrollment is about nothing that has happened. -/
theorem Inv.create {relay : Relay} {events : List Event} (inv : Inv relay events)
    (ttlMs swept made : Int) (idBytes codeBytes : List UInt8) (request : EnrollmentRequest) :
    Inv (relay.create ttlMs swept made idBytes codeBytes request).1
      (.created relay.created request.credential (made + ttlMs) :: .clock swept :: events) := by
  have before := inv.sweep swept
  have fresh : ∀ event ∈ Event.clock swept :: events, event.object? ≠ some relay.created := by
    intro event member about
    exact Nat.lt_irrefl _ (before.past event member _ about)
  have older : ∀ id enrollment, (relay.sweep swept).Holds id enrollment →
      enrollment.object ≠ relay.created :=
    fun id enrollment old => Nat.ne_of_lt (before.numbered id enrollment old)
  constructor
  · intro id enrollment found
    rcases holds_create found with ⟨-, rfl⟩ | ⟨-, old⟩
    · exact known_created rfl rfl rfl fresh rfl rfl rfl
    · apply (before.known id enrollment old).frame
      · intro same
        exact older id enrollment old (Option.some.inj same).symm
      · rintro now same
        cases same
  · intro id enrollment found
    rcases holds_create found with ⟨rfl, rfl⟩ | ⟨-, old⟩
    · rfl
    · exact before.keyed id enrollment old
  · intro id enrollment found
    rcases holds_create found with ⟨-, rfl⟩ | ⟨-, old⟩
    · exact Nat.lt_succ_self _
    · exact Nat.lt_succ_of_lt (before.numbered id enrollment old)
  · intro id other first second found also same
    rcases holds_create found with ⟨rfl, rfl⟩ | ⟨-, old⟩
    · rcases holds_create also with ⟨rfl, -⟩ | ⟨-, past⟩
      · rfl
      · exact absurd same.symm (older other second past)
    · rcases holds_create also with ⟨-, rfl⟩ | ⟨-, past⟩
      · exact absurd same (older id first old)
      · exact before.distinct id other first second old past same
  · intro event member object about
    rcases List.mem_cons.mp member with rfl | old
    · simp only [Event.object?, Option.some.injEq] at about
      rw [← about]
      exact Nat.lt_succ_self _
    · exact Nat.lt_succ_of_lt (before.past event old object about)
  · exact ⟨fresh, before.lawful⟩

theorem find_holds {relay : Relay} {now : Int} {userCode : String}
    (found : (relay.find now userCode).2 = some enrollment) :
    ∃ id, (relay.sweep now).Holds id enrollment := by
  simp only [Relay.find, Option.bind_eq_some_iff] at found
  obtain ⟨id, -, holds⟩ := found
  exact ⟨id, holds⟩

/-- A pending enrollment has seen no decision. -/
theorem Known.undecided {events : List Event}
    (known : Known events enrollment) (pending : enrollment.status = .pending) :
    (∀ userId, .approved enrollment.object userId ∉ events) ∧
      .denied enrollment.object ∉ events ∧
      ∀ userId shown, .revealed enrollment.object userId shown ∉ events := by
  refine ⟨?_, ?_, ?_⟩
  · intro userId member
    rw [known.approved, known.pending pending] at member
    cases member
  · rw [known.denied, pending]
    simp
  · intro userId shown member
    have revealed := known.revealed.mp ⟨userId, shown, member⟩
    rw [pending] at revealed
    cases revealed

/-- The approval of a pending enrollment is recorded. -/
theorem Known.approve {events : List Event}
    (known : Known events enrollment) (pending : enrollment.status = .pending) (userId : String)
    (hours : Int) :
    Known (.approved enrollment.object userId :: events)
      { enrollment with
        status := .approved
        userId := some userId
        approvedDurationHours := some hours } := by
  obtain ⟨unapproved, undenied, unrevealed⟩ := known.undecided pending
  constructor
  · exact known.within.cons _ (by simp)
  · intro other
    simp [unapproved other, eq_comm]
  · simpa using undenied
  · constructor
    · rintro ⟨other, shown, member⟩
      rcases List.mem_cons.mp member with here | earlier
      · cases here
      · exact absurd earlier (unrevealed other shown)
    · simp
  · simp
  · exact known.credential

theorem Known.deny {events : List Event}
    (known : Known events enrollment) (pending : enrollment.status = .pending) :
    Known (.denied enrollment.object :: events)
      { enrollment with
        status := .denied
        credential := none } := by
  obtain ⟨unapproved, undenied, unrevealed⟩ := known.undecided pending
  constructor
  · exact known.within.cons _ (by simp)
  · intro other
    simp [unapproved other, known.pending pending]
  · simp
  · constructor
    · rintro ⟨other, shown, member⟩
      rcases List.mem_cons.mp member with here | earlier
      · cases here
      · exact absurd earlier (unrevealed other shown)
    · simp
  · simp
  · simp

theorem Known.reveal {events : List Event}
    (known : Known events enrollment) (approved : enrollment.status = .approved)
    (userId shown : String) :
    Known (.revealed enrollment.object userId shown :: events)
      { enrollment with
        credential := none
        status := .revealed } := by
  have undenied : .denied enrollment.object ∉ events := by
    rw [known.denied, approved]
    simp
  constructor
  · exact known.within.cons _ (by simp)
  · intro other
    simpa using known.approved other
  · simpa using undenied
  · exact ⟨fun _ => rfl, fun _ => ⟨userId, shown, List.mem_cons_self⟩⟩
  · simp
  · simp

/-- The sweep that a call begins with. -/
theorem Inv.find {relay : Relay} {events : List Event} (inv : Inv relay events) (now : Int)
    (userCode : String) :
    Inv (relay.find now userCode).1 (.clock now :: events) ∧
      ∀ enrollment, (relay.find now userCode).2 = some enrollment →
        ∃ id, (relay.find now userCode).1.Holds id enrollment :=
  ⟨inv.sweep now, fun _ found => find_holds found⟩

theorem Inv.approve {relay : Relay} {events : List Event} (inv : Inv relay events) (ttlMs now : Int)
    (userCode userId : String) (hours : Int) :
    Inv (relay.approve now userCode userId hours).1
      (happened ttlMs relay (.approve now userCode userId hours) ++ events) := by
  obtain ⟨swept, held⟩ := inv.find now userCode
  simp only [happened, Relay.approve]
  cases found : (relay.find now userCode).2 with
  | none => exact swept
  | some enrollment =>
    obtain ⟨id, holds⟩ := held enrollment found
    by_cases pending : enrollment.status = .pending
    · have known := swept.known id enrollment holds
      have changed := swept.put holds (known.approve pending userId hours)
        (known.undecided pending) rfl rfl rfl
      simpa [pending] using changed
    · simpa [pending] using swept

theorem Inv.deny {relay : Relay} {events : List Event} (inv : Inv relay events) (ttlMs now : Int)
    (userCode : String) :
    Inv (relay.deny now userCode).1 (happened ttlMs relay (.deny now userCode) ++ events) := by
  obtain ⟨swept, held⟩ := inv.find now userCode
  simp only [happened, Relay.deny]
  cases found : (relay.find now userCode).2 with
  | none => exact swept
  | some enrollment =>
    obtain ⟨id, holds⟩ := held enrollment found
    by_cases pending : enrollment.status = .pending
    · have known := swept.known id enrollment holds
      obtain ⟨unapproved, -, unrevealed⟩ := known.undecided pending
      have changed := swept.put holds (known.deny pending) ⟨unapproved, unrevealed⟩ rfl rfl rfl
      simpa [pending] using changed
    · simpa [pending] using swept

/-- A credential is handed over only for an approved enrollment, to its user. -/
theorem reveal_ok {relay : Relay} {now : Int} {userCode userId shown : String}
    (handed : (relay.reveal now userCode userId).2 = .ok shown) :
    ∃ enrollment, (relay.find now userCode).2 = some enrollment ∧
      enrollment.userId = some userId ∧ enrollment.status = .approved ∧
      enrollment.credential = some shown ∧
      (relay.reveal now userCode userId).1 = (relay.find now userCode).1.put
        { enrollment with
          credential := none
          status := .revealed } := by
  simp only [Relay.reveal] at handed ⊢
  cases found : (relay.find now userCode).2 with
  | none => simp [found] at handed
  | some enrollment =>
    simp only [found] at handed ⊢
    split at handed
    · cases handed
    next owned =>
      simp only [ne_eq, not_not] at owned
      split at handed
      · cases handed
      · cases handed
      next approved has =>
        cases handed
        exact ⟨enrollment, rfl, owned, approved, has, by simp [owned]⟩
      · cases handed

theorem reveal_error {relay : Relay} {now : Int} {userCode userId : String} {error : RevealError}
    (refused : (relay.reveal now userCode userId).2 = .error error) :
    (relay.reveal now userCode userId).1 = (relay.find now userCode).1 := by
  simp only [Relay.reveal] at refused ⊢
  cases found : (relay.find now userCode).2 with
  | none => rfl
  | some enrollment =>
    simp only [found] at refused ⊢
    split
    · rfl
    next owned =>
      rw [if_neg owned] at refused
      split
      · rfl
      · rfl
      next approved has =>
        simp [approved, has] at refused
      · rfl

theorem Inv.reveal {relay : Relay} {events : List Event} (inv : Inv relay events) (ttlMs now : Int)
    (userCode userId : String) :
    Inv (relay.reveal now userCode userId).1
      (happened ttlMs relay (.reveal now userCode userId) ++ events) := by
  obtain ⟨swept, held⟩ := inv.find now userCode
  simp only [happened]
  cases result : (relay.reveal now userCode userId).2 with
  | error error =>
    rw [reveal_error result]
    exact swept
  | ok shown =>
    obtain ⟨enrollment, found, owned, approved, has, after⟩ := reveal_ok result
    obtain ⟨id, holds⟩ := held enrollment found
    have known := swept.known id enrollment holds
    have within := known.within
    rw [← known.credential shown has] at within
    have undenied : .denied enrollment.object ∉ Event.clock now :: events := by
      rw [known.denied, approved]
      simp
    have unrevealed : ∀ other again,
        .revealed enrollment.object other again ∉ Event.clock now :: events := by
      intro other again member
      have revealed := known.revealed.mp ⟨other, again, member⟩
      rw [approved] at revealed
      cases revealed
    have changed := swept.put holds (known.reveal approved userId shown)
      ⟨⟨_, within⟩, (known.approved userId).mpr owned, undenied, unrevealed⟩ rfl rfl rfl
    rw [after, found]
    exact changed

/-- What one call keeps. -/
theorem Inv.step {history : History} (inv : Inv history.relay history.events) (ttlMs : Int)
    (op : Op) : Inv (history.step ttlMs op).relay (history.step ttlMs op).events := by
  cases op with
  | create swept made idBytes codeBytes request =>
    exact inv.create ttlMs swept made idBytes codeBytes request
  | summary now userCode => exact inv.sweep now
  | approve now userCode userId hours => exact inv.approve ttlMs now userCode userId hours
  | deny now userCode => exact inv.deny ttlMs now userCode
  | reveal now userCode userId => exact inv.reveal ttlMs now userCode userId
  | poll now id => exact inv.sweep now
  | discard id => exact inv.discard id

/-- After any calls at any readings of the clock: a credential is handed over at most once, to the
user whose approval was recorded before, of an enrollment that was not denied and past whose window
no sweep has read the clock; an enrollment is approved at most once, and its record names that
user. -/
theorem history_lawful (ttlMs : Int) (ops : List Op) :
    Lawful (run (History.step ttlMs) {} ops).events ∧
      ∀ id enrollment, (run (History.step ttlMs) {} ops).relay.Holds id enrollment →
        ∀ userId, .approved enrollment.object userId ∈ (run (History.step ttlMs) {} ops).events ↔
          enrollment.userId = some userId := by
  have all : Along (History.step ttlMs) (fun _ _ => True) {} ops :=
    Along.of_forall fun _ _ _ => trivial
  have inv : Inv (run (History.step ttlMs) {} ops).relay
      (run (History.step ttlMs) {} ops).events := by
    apply all.invariant fun history => Inv history.relay history.events
    · intro history op holds _
      exact holds.step ttlMs op
    · exact Inv.start
  exact ⟨inv.lawful, fun id enrollment holds => (inv.known id enrollment holds).approved⟩

end HelixKit.Backend.EnrollmentRelay
