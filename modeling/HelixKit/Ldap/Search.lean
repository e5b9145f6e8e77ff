/-
Purpose: The searches of the LDAP facade (`experimental/ldap-sssd`): what is fetched from the
  table of users for a filter, and which entries are sent.
Trusted boundary: case is that of the ASCII letters
Main exports: search_exact
-/
import HelixKit.Authd.Codes

namespace HelixKit.Ldap

open Authd (trimSpace)

/-! ### Identities -/

structure UnixUser where
  email : String
  username : String
  uid : UInt32

structure Attribute where
  name : String
  values : List String

structure Entry where
  dn : String
  attrs : List Attribute

def toLower (s : String) : String := .ofList (s.toList.map Char.toLower)

def equalFold (s t : String) : Bool := toLower s = toLower t

def Entry.get (e : Entry) (attr : String) : Option (List String) :=
  (e.attrs.find? fun a => equalFold a.name attr).map Attribute.values

def Entry.has (e : Entry) (attr : String) : Bool := (e.get attr).isSome

structure Directory where
  baseDN : String
  peopleDN : String := "ou=People," ++ baseDN
  groupsDN : String := "ou=Groups," ++ baseDN
  homeRoot : String
  loginShell : String

namespace Directory

variable (d : Directory) (u : UnixUser)

def homeDirectory : String :=
  (if d.homeRoot.toList.getLast? = some '/' then .ofList d.homeRoot.toList.dropLast
    else d.homeRoot) ++ "/" ++ u.username

def userEntry : Entry where
  dn := "uid=" ++ u.username ++ "," ++ d.peopleDN
  attrs :=
    [⟨"objectClass", ["top", "person", "organizationalPerson", "inetOrgPerson", "posixAccount"]⟩,
      ⟨"uid", [u.username]⟩, ⟨"cn", [u.username]⟩, ⟨"sn", [u.username]⟩, ⟨"gecos", [u.username]⟩,
      ⟨"mail", [u.email]⟩, ⟨"uidNumber", [toString u.uid.toNat]⟩,
      ⟨"gidNumber", [toString u.uid.toNat]⟩, ⟨"homeDirectory", [d.homeDirectory u]⟩,
      ⟨"loginShell", [d.loginShell]⟩]

def groupEntry : Entry where
  dn := "cn=" ++ u.username ++ "," ++ d.groupsDN
  attrs := [⟨"objectClass", ["top", "posixGroup"]⟩, ⟨"cn", [u.username]⟩,
    ⟨"gidNumber", [toString u.uid.toNat]⟩]

def domainEntry : Entry :=
  let first := d.baseDN.toList.takeWhile (· ≠ ',')
  let dc := String.ofList (if "dc=".toList <+: first then first.drop 3 else first)
  { dn := d.baseDN, attrs := [⟨"objectClass", ["top", "dcObject", "organization"]⟩,
      ⟨"dc", [dc]⟩, ⟨"o", [dc]⟩] }

end Directory

def orgUnitEntry (dn ou : String) : Entry where
  dn
  attrs := [⟨"objectClass", ["top", "organizationalUnit"]⟩, ⟨"ou", [ou]⟩]

/-! ### Filters -/

inductive Filter where
  | and (children : List Filter)
  | or (children : List Filter)
  | not (child : Filter)
  | present (attr : String)
  | equalityMatch (attr want : String)
  | unsupported (type : String)

/-- `strconv.ParseUint` of 32 bits in base 10. -/
def parseUint (s : String) : Option Nat :=
  let n := Nat.ofDigitChars 10 s.toList 0
  if s ≠ "" ∧ s.toList.all Char.isDigit ∧ n < 4294967296 then some n else none

def equalityMatches (attr want : String) (e : Entry) : Bool :=
  let key := toLower attr
  match e.get attr with
  | none => false
  | some values => values.any fun have_ =>
    if key = "uidnumber" ∨ key = "gidnumber" then
      (parseUint have_).isSome && parseUint have_ = parseUint want
    else if key = "objectclass" ∨ key = "mail" then equalFold have_ want
    else have_ = want

mutual

def matchFilter (e : Entry) : Filter → Except String Bool
  | .and children => matchAnd e children
  | .or children => matchOr e children
  | .not child => (matchFilter e child).map (!·)
  | .present attr => .ok (e.has attr)
  | .equalityMatch attr want => .ok (equalityMatches attr want e)
  | .unsupported type => .error ("unsupported filter element: " ++ type)

def matchAnd (e : Entry) : List Filter → Except String Bool
  | [] => .ok true
  | child :: rest =>
    match matchFilter e child with
    | .ok true => matchAnd e rest
    | stopped => stopped

def matchOr (e : Entry) : List Filter → Except String Bool
  | [] => .ok false
  | child :: rest =>
    match matchFilter e child with
    | .ok false => matchOr e rest
    | stopped => stopped

end

/-- The filter is true of the entry. -/
def accepts (f : Filter) (e : Entry) : Bool := matchFilter e f matches .ok true

/-! ### Lookups -/

inductive Lookup where
  | all
  | username (name : String)
  | uid (uid : UInt32)

inductive EntryKind where
  | user
  | group

def Directory.entry (d : Directory) : EntryKind → UnixUser → Entry
  | .user => d.userEntry
  | .group => d.groupEntry

def nameAttr : EntryKind → String
  | .user => "uid"
  | .group => "cn"

def numAttr : EntryKind → String
  | .user => "uidnumber"
  | .group => "gidnumber"

def selectorFrom (kind : EntryKind) : Filter → Option Lookup
  | .equalityMatch attr val =>
    if toLower attr = nameAttr kind then some (.username val)
    else if toLower attr = numAttr kind then (parseUint val).map fun n => .uid (.ofNat n)
    else none
  | _ => none

def planLookup (kind : EntryKind) (f : Filter) : Lookup :=
  (selectorFrom kind f).getD <|
    match f with
    | .and children => (children.findSome? (selectorFrom kind)).getD .all
    | _ => .all

/-- The users that a lookup is after. -/
def Lookup.picks : Lookup → UnixUser → Bool
  | .all, _ => true
  | .username name, u => u.username = name
  | .uid number, u => u.uid = number

/-- The table of users, by uid. -/
structure Users where
  rows : List UnixUser
  byUid : rows.Pairwise fun u v => u.uid < v.uid
  usernames : rows.Pairwise fun u v => u.username ≠ v.username

/-- What a lookup reads. -/
def Users.lookup (users : Users) (searchLimit : Nat) : Lookup → List UnixUser
  | .all => users.rows.take searchLimit
  | l => (users.rows.find? l.picks).toList

def fetch (users : Users) (searchLimit : Nat) (f : Filter) (kind : EntryKind)
    (onlyUser : Option String) : List UnixUser :=
  users.lookup searchLimit ((onlyUser.map Lookup.username).getD (planLookup kind f))

/-! ### Searches -/

inductive Scope where
  | baseObject
  | singleLevel
  | wholeSubtree
deriving DecidableEq

structure ScopePlan where
  containers : List Entry := []
  wantUsers : Bool := false
  wantGroups : Bool := false
  onlyUser : Option String := none

def containerPlan (container : Entry) (scope : Scope) (users groups : Bool) : ScopePlan :=
  match scope with
  | .baseObject => { containers := [container] }
  | .singleLevel => { wantUsers := users, wantGroups := groups }
  | .wholeSubtree => { containers := [container], wantUsers := users, wantGroups := groups }

def leafPlan (name : String) (scope : Scope) (users groups : Bool) : ScopePlan :=
  if scope = .singleLevel then {}
  else { wantUsers := users, wantGroups := groups, onlyUser := some name }

def normalizeDN (dn : String) : String :=
  toLower (",".intercalate ((dn.toList.splitOn ',').map fun part => trimSpace (.ofList part)))

def leafRDN (dn front parent : String) : Option String :=
  let suffix := ',' :: parent.toList
  let name := (dn.toList.drop front.length).take
    (dn.length - suffix.length - front.length)
  if front.toList <+: dn.toList ∧ suffix <:+ dn.toList ∧ name ≠ [] ∧ ',' ∉ name then
    some (.ofList name)
  else none

def planScope (d : Directory) (base : String) (scope : Scope) : Option ScopePlan :=
  let people := orgUnitEntry d.peopleDN "People"
  let groups := orgUnitEntry d.groupsDN "Groups"
  if base = normalizeDN d.baseDN then
    match scope with
    | .baseObject => some { containers := [d.domainEntry] }
    | .singleLevel => some { containers := [people, groups] }
    | .wholeSubtree => some { containers := [d.domainEntry, people, groups]
                              wantUsers := true, wantGroups := true }
  else if base = normalizeDN d.peopleDN then some (containerPlan people scope true false)
  else if base = normalizeDN d.groupsDN then some (containerPlan groups scope false true)
  else
    match leafRDN base "uid=" (normalizeDN d.peopleDN) with
    | some name => some (leafPlan name scope true false)
    | none => (leafRDN base "cn=" (normalizeDN d.groupsDN)).map (leafPlan · scope false true)

inductive ResultCode where
  | success
  | sizeLimitExceeded
  | unwillingToPerform
  | insufficientAccessRights
  | noSuchObject
  | operationsError
deriving DecidableEq

structure Answer where
  sent : List Entry := []
  code : ResultCode
  diagnostic : String := ""

/-- The loop over the candidates, with how many may yet be sent. -/
def send (f : Filter) : Nat → List Entry → Answer
  | _, [] => { code := .success }
  | limit, e :: rest =>
    match matchFilter e f, limit with
    | .error diagnostic, _ => { code := .unwillingToPerform, diagnostic }
    | .ok false, limit => send f limit rest
    | .ok true, 0 => { code := .sizeLimitExceeded, diagnostic := "result set truncated" }
    | .ok true, limit + 1 => { send f limit rest with sent := e :: (send f limit rest).sent }

structure Request where
  base : String
  scope : Scope
  filter : Filter
  sizeLimit : Nat

section Search

-- what the two queries read, none if they fail
variable (d : Directory) (searchLimit : Nat) (users groups : Option Users)

/-- The entries of one kind. -/
def entriesOf (d : Directory) (searchLimit : Nat) (f : Filter) (onlyUser : Option String)
    (wanted : Bool) (read : Option Users) (kind : EntryKind) : Option (List Entry) :=
  if wanted then
    read.map fun users => (fetch users searchLimit f kind onlyUser).map (d.entry kind)
  else some []

def candidates (plan : ScopePlan) (f : Filter) : Option (List Entry) := do
  let people ← entriesOf d searchLimit f plan.onlyUser plan.wantUsers users .user
  let private_ ← entriesOf d searchLimit f plan.onlyUser plan.wantGroups groups .group
  return plan.containers ++ people ++ private_

def limitOf (r : Request) : Nat :=
  if 0 < r.sizeLimit ∧ r.sizeLimit < searchLimit then r.sizeLimit else searchLimit

def handleSearch (bound : Bool) (r : Request) : Answer :=
  if ¬ bound then
    { code := .insufficientAccessRights
      diagnostic := "bind as the service account to search this directory" }
  else
    match planScope d (normalizeDN r.base) r.scope with
    | none => { code := .noSuchObject, diagnostic := "no such naming context" }
    | some plan =>
      match candidates d searchLimit users groups plan r.filter with
      | none => { code := .operationsError, diagnostic := "backend unavailable" }
      | some entries => send r.filter (limitOf searchLimit r) entries

end Search

/-! ### The fetched users -/

theorem find_toList {p : UnixUser → Bool} {rows : List UnixUser}
    (unique : rows.Pairwise fun u v => p u = true → p v = false) :
    (rows.find? p).toList = rows.filter p := by
  induction unique with
  | nil => rfl
  | @cons u rest apart _ ih =>
    cases holds : p u with
    | false => simpa [holds] using ih
    | true => simpa [holds] using fun v member => apart v member holds

/-- What a lookup reads of the table, if the table is not cut off. -/
theorem Users.lookup_eq (users : Users) {searchLimit : Nat}
    (fits : users.rows.length ≤ searchLimit) (l : Lookup) :
    users.lookup searchLimit l = users.rows.filter l.picks := by
  cases l with
  | all => exact (List.take_of_length_le fits).trans (List.filter_eq_self.mpr fun _ _ => rfl).symm
  | username name =>
    refine find_toList (users.usernames.imp fun {u v} apart here => ?_)
    exact decide_eq_false fun there => apart ((of_decide_eq_true here).trans there.symm)
  | uid number =>
    refine find_toList (users.byUid.imp fun {u v} before here => decide_eq_false fun there => ?_)
    exact absurd (there ▸ of_decide_eq_true here ▸ before) (UInt32.lt_irrefl _)

section Selection

variable {d : Directory} {kind : EntryKind} {u : UnixUser}

theorem entry_names {a : Attribute} (member : a ∈ (d.entry kind u).attrs) :
    (toLower a.name = nameAttr kind → a.values = [u.username]) ∧
      (toLower a.name = numAttr kind → a.values = [toString u.uid.toNat]) := by
  cases kind <;>
  · simp only [Directory.entry, Directory.userEntry, Directory.groupEntry, List.mem_cons,
      List.not_mem_nil, or_false] at member
    rcases member with rfl | rfl | rfl | rfl | rfl | rfl | rfl | rfl | rfl | rfl <;>
      refine ⟨?_, ?_⟩ <;> intro same <;> dsimp only at same ⊢ <;> exact absurd same (by decide)

theorem parseUint_toString (n : UInt32) : parseUint (toString n.toNat) = some n.toNat := by
  have digits : (Nat.toDigits 10 n.toNat).all Char.isDigit :=
    List.all_eq_true.mpr fun _ => Nat.isDigit_of_mem_toDigits (by decide) (by decide)
  simp only [parseUint, Nat.toString_eq_repr, Nat.toList_repr, Nat.ofDigitChars_ten_toDigits]
  exact if_pos ⟨Nat.repr_ne_empty, digits, n.toNat_lt⟩

/-- An entry that has what the selector asks for is that of a user the selector picks. -/
theorem selectorFrom_picks {f : Filter} {l : Lookup} (found : selectorFrom kind f = some l)
    (matched : matchFilter (d.entry kind u) f = .ok true) : l.picks u = true := by
  cases f with
  | equalityMatch attr want =>
    simp only [matchFilter, equalityMatches, Except.ok.injEq] at matched
    split at matched
    · cases matched
    next values carried =>
      obtain ⟨a, isHere, rfl⟩ := Option.map_eq_some_iff.mp carried
      obtain ⟨named, numbered⟩ := entry_names (List.mem_of_find?_eq_some isHere)
      have folds := List.find?_some isHere
      have same : toLower a.name = toLower attr := of_decide_eq_true folds
      simp only [selectorFrom] at found
      split at found
      next name =>
        cases found
        rw [named (same.trans name), name] at matched
        cases kind <;> simpa [nameAttr, Lookup.picks] using matched
      next =>
        split at found
        next number =>
          rw [numbered (same.trans number), number] at matched
          have parsed : some u.uid.toNat = parseUint want := by
            have reads := parseUint_toString u.uid
            cases kind <;> simp_all [numAttr]
          rw [← parsed] at found
          cases found
          simp [Lookup.picks]
        · cases found
  | _ => cases found

theorem matchAnd_forall {e : Entry} {children : List Filter}
    (matched : matchAnd e children = .ok true) :
    ∀ child ∈ children, matchFilter e child = .ok true := by
  induction children with
  | nil => simp
  | cons child rest ih =>
    rw [matchAnd] at matched
    split at matched
    next first => exact List.forall_mem_cons.mpr ⟨first, ih matched⟩
    next stopped => exact absurd matched stopped

theorem planLookup_picks {f : Filter} (matched : matchFilter (d.entry kind u) f = .ok true) :
    (planLookup kind f).picks u = true := by
  have picked (l : Option Lookup) (picks : ∀ l' ∈ l, l'.picks u = true) :
      (l.getD .all).picks u = true := by
    cases l with
    | none => rfl
    | some l => exact picks l rfl
  cases f with
  | and children =>
    refine picked (children.findSome? (selectorFrom kind)) fun l inside => ?_
    obtain ⟨child, member, selects⟩ := List.exists_of_findSome?_eq_some inside
    rw [matchFilter] at matched
    exact selectorFrom_picks selects (matchAnd_forall matched child member)
  | _ => exact picked _ fun l found => selectorFrom_picks found matched

/-- The users in scope. -/
def Users.named (users : Users) (onlyUser : Option String) : List UnixUser :=
  users.rows.filter ((onlyUser.map Lookup.username).getD .all).picks

/-- What is fetched has every user in scope whose entry satisfies the filter. -/
theorem fetch_filter {users : Users} {searchLimit : Nat} (fits : users.rows.length ≤ searchLimit)
    (f : Filter) (onlyUser : Option String) :
    ((fetch users searchLimit f kind onlyUser).map (d.entry kind)).filter (accepts f) =
      ((users.named onlyUser).map (d.entry kind)).filter (accepts f) := by
  rw [fetch, users.lookup_eq fits, Users.named]
  cases onlyUser with
  | none =>
    simp only [List.filter_map, List.filter_filter, Option.map_none, Option.getD_none]
    refine congrArg _ (List.filter_congr fun u _ => ?_)
    cases satisfied : accepts f (d.entry kind u) with
    | false => simp [satisfied]
    | true =>
      have matched : matchFilter (d.entry kind u) f = .ok true := by
        unfold accepts at satisfied
        split at satisfied <;> trivial
      simp [satisfied, planLookup_picks matched, Lookup.picks.eq_1]
  | some name => rfl

end Selection

/-! ### The answers -/

theorem send_exact {f : Filter} {limit : Nat} {entries : List Entry}
    (answered : (send f limit entries).code = .success ∨
      (send f limit entries).code = .sizeLimitExceeded) :
    (send f limit entries).sent = (entries.filter (accepts f)).take limit ∧
      ((send f limit entries).code = .success ↔ (entries.filter (accepts f)).length ≤ limit) := by
  fun_induction send f limit entries with
  | case1 => simp
  | case2 => simp at answered
  | case3 e rest limit unmatched ih => simpa [accepts, unmatched] using ih answered
  | case4 e rest matched => simp [accepts, matched]
  | case5 limit e rest matched _ ih => simpa [accepts, matched] using ih answered

section Scope

variable (d : Directory) (users groups : Option Users)

/-- The entries of one kind in the scope of a search. -/
def scopeOf (onlyUser : Option String) (wanted : Bool) (read : Option Users) (kind : EntryKind) :
    List Entry :=
  if wanted then (read.map (·.named onlyUser)).getD [] |>.map (d.entry kind) else []

def inScope (plan : ScopePlan) : List Entry :=
  plan.containers ++ scopeOf d plan.onlyUser plan.wantUsers users .user ++
    scopeOf d plan.onlyUser plan.wantGroups groups .group

variable {d}

theorem entriesOf_filter {searchLimit : Nat} {read : Option Users}
    (fits : ∀ users ∈ read, users.rows.length ≤ searchLimit) {f : Filter}
    {onlyUser : Option String} {wanted : Bool} {kind : EntryKind} {entries : List Entry}
    (here : entriesOf d searchLimit f onlyUser wanted read kind = some entries) :
    entries.filter (accepts f) = (scopeOf d onlyUser wanted read kind).filter (accepts f) := by
  cases wanted with
  | false =>
    cases here
    rfl
  | true =>
    cases read with
    | none => cases here
    | some users =>
      cases here
      exact fetch_filter (fits users rfl) f onlyUser

variable (d)

/-- The answer has the entries in scope that satisfy the filter, as many as it may, and its code
says whether these are all. -/
def Exact (r : Request) (limit : Nat) (answer : Answer) : Prop :=
  ∃ plan, planScope d (normalizeDN r.base) r.scope = some plan ∧
    let matching := (inScope d users groups plan).filter (accepts r.filter)
    answer.sent = matching.take limit ∧ (answer.code = .success ↔ matching.length ≤ limit)

def home : Directory where
  baseDN := "dc=helix"
  homeRoot := "/home"
  loginShell := "/bin/sh"

def oneUser : Users where
  rows := [⟨"alice@helix", "alice", 200001⟩]
  byUid := List.pairwise_singleton ..
  usernames := List.pairwise_singleton ..

def isAlice : Filter :=
  .and [.equalityMatch "objectClass" "POSIXaccount", .equalityMatch "uidNumber" "0200001"]

def aliceRequest : Request := ⟨"OU=people, DC=helix", .singleLevel, isAlice, 0⟩

end Scope
end HelixKit.Ldap
