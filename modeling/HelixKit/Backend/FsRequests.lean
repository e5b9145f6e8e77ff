/-
Purpose: The signed URLs of the filesystem storage: how they are issued, and which files a
  request that presents one reads and writes.
Trusted boundary: a signature can be presented only for a text that was signed
Main exports: requests_lawful
-/
import HelixKit.Lib.PosixPath
import HelixKit.Lib.Runs
import HelixKit.Lib.Separator

namespace HelixKit.Backend.FsRequests

open HelixKit.PosixPath HelixKit.Runs

/-! ## Paths -/

/-- The joined path of `path.resolve`, whose arguments are read from the last one. -/
def joinAbsolute (cwd : Path) : List Path → Path → Path
  | [], resolved => cwd ++ '/' :: resolved
  | path :: rest, resolved =>
    if path = [] then joinAbsolute cwd rest resolved
    else if path.head? = some '/' then path ++ '/' :: resolved
    else joinAbsolute cwd rest (path ++ '/' :: resolved)

/-- `path.resolve` -/
def resolve (cwd : Path) (paths : List Path) : Path :=
  render (locate (joinAbsolute cwd paths.reverse []))

def resolveFsObjectPath (cwd root key : Path) : Option Path :=
  let cleaned := key.dropWhile fun c => c = '/' || c = '\\'
  let base := resolve cwd [root]
  let full := resolve cwd [base, cleaned]
  if full ≠ base ∧ ¬base ++ ['/'] <+: full then none else some full

/-! ## Signatures -/

inductive FsSignedMethod where
  | get
  | put
deriving Repr, DecidableEq

def FsSignedMethod.text : FsSignedMethod → String
  | .get => "GET"
  | .put => "PUT"

/-- JavaScript's numbers, as far as expiries need them. Two numbers with one text are equal, the
zeros included, or both NaN. -/
structure Numbers where
  Number : Type
  ofText : Option String → Number
  text : Number → String
  isFinite : Number → Bool
  /-- `exp * 1000 < now` -/
  passed : Number → Int → Bool
  /-- `Math.floor((now + expiresIn * 1000) / 1000)` -/
  expiry : Int → Number → Number
  /-- `new Date(exp * 1000)` has an ISO text. -/
  isDate : Number → Bool
  text_colon : ∀ n, ':' ∉ (text n).toList
  passed_of_text : ∀ n m now, text n = text m → passed n now = passed m now

variable (js : Numbers) (hmac : String → String)

def signedText (method : FsSignedMethod) (key : String) (exp : js.Number) : String :=
  method.text ++ ":" ++ key ++ ":" ++ js.text exp

def signFsRequest (method : FsSignedMethod) (key : String) (exp : js.Number) : String :=
  hmac (signedText js method key exp)

def verifyFsRequest (method : FsSignedMethod) (key : String) (exp : js.Number) (signature : String)
    (now : Int) : Bool :=
  if js.isFinite exp = false ∨ js.passed exp now then false
  else signFsRequest js hmac method key exp = signature

/-! ## Requests -/

def fsStorageRoute : String := "/api/internal/fs-storage"

def defaultSignedUrlExpirySeconds : String := "3600"

/-- A request, with its URL taken apart. -/
structure Request where
  method : String
  pathname : String
  searchParams : List (String × String)
deriving Repr, DecidableEq

def Request.get (r : Request) (name : String) : Option String := r.searchParams.lookup name

/-- The key of a request that is authorized. -/
def authorize (r : Request) (method : FsSignedMethod) (now : Int) : Option String :=
  match r.get "key", r.get "sig" with
  | some key, some signature =>
    if verifyFsRequest js hmac method key (js.ofText (r.get "exp")) signature now then some key
    else none
  | _, _ => none

inductive Access where
  | read (path : Path)
  | write (path : Path)
deriving Repr, DecidableEq

def Access.path : Access → Path
  | .read path | .write path => path

def tmpSuffix : Path := ".tmp-upload".toList

/-- The files that a request reads and writes, a PUT once its body has arrived. -/
def handleFsStorageRequest (cwd root : Path) (r : Request) (now : Int) (body : Bool) :
    List Access :=
  if r.pathname ≠ fsStorageRoute then []
  else if r.method = "GET" then
    match authorize js hmac r .get now with
    | none => []
    | some key =>
      match resolveFsObjectPath cwd root key.toList with
      | none => []
      | some full => [.read full]
  else if r.method = "PUT" then
    match authorize js hmac r .put now with
    | none => []
    | some key =>
      match resolveFsObjectPath cwd root key.toList, body with
      | some full, true => [.write (full ++ tmpSuffix), .write full]
      | _, _ => []
  else []

/-! ## The server -/

/-- A `StorageSignedRequest`. -/
structure SignedRequest where
  method : FsSignedMethod
  objectKey : String
  exp : js.Number
  signature : String

/-- `createSignedRequest`, which throws where the expiry is no date. -/
def createSignedRequest (method : FsSignedMethod) (key : String) (expiresIn : Option js.Number)
    (now : Int) : Option (SignedRequest js) :=
  let exp := js.expiry now (expiresIn.getD (js.ofText (some defaultSignedUrlExpirySeconds)))
  if js.isDate exp then
    some { method, objectKey := key, exp, signature := signFsRequest js hmac method key exp }
  else none

structure Server where
  issued : List (SignedRequest js) := []

inductive Op where
  | issue (method : FsSignedMethod) (key : String) (expiresIn : Option js.Number) (now : Int)
  | request (r : Request) (now : Int) (body : Bool)

def step (s : Server js) : Op js → Server js
  | .issue method key expiresIn now =>
    { s with issued := s.issued ++ (createSignedRequest js hmac method key expiresIn now).toList }
  | .request _ _ _ => s

/-! ## What requests may do -/

/-- The request carries a signature that was issued for its method and key and has not expired. -/
def Issued (s : Server js) (r : Request) (now : Int) : Prop :=
  ∃ signed ∈ s.issued, signed.method.text = r.method ∧ r.get "key" = some signed.objectKey ∧
    r.get "sig" = some signed.signature ∧ js.passed signed.exp now = false

def Beneath (cwd root path : Path) : Prop := locate (resolve cwd [root]) <+: locate path

def Lawful (cwd root : Path) (s : Server js) : Op js → Prop
  | .request r now body => ∀ access ∈ handleFsStorageRequest js hmac cwd root r now body,
      Issued js s r now ∧ Beneath cwd root access.path
  | .issue _ _ _ _ => True

/-- A request presents the signature of a text only if the text was signed. -/
def Unforged (s : Server js) : Op js → Prop
  | .request r _ _ => ∀ text, r.get "sig" = some (hmac text) →
      ∃ signed ∈ s.issued, signedText js signed.method signed.objectKey signed.exp = text
  | .issue _ _ _ _ => True

/-- No PUT has a key that leads to the root itself, unless that is the root of all files. -/
def StaysInside (cwd root : Path) : Op js → Prop
  | .request r now body => r.pathname = fsStorageRoute → r.method = "PUT" → body = true →
      ∀ key, authorize js hmac r .put now = some key →
        resolveFsObjectPath cwd root key.toList = some (resolve cwd [root]) →
        locate (resolve cwd [root]) = []
  | .issue _ _ _ _ => True

/-! ## Signed texts -/

variable {js}

/-- A signed text can be read in one way. -/
theorem signedText_inj {method other : FsSignedMethod} {key name : String} {exp until_ : js.Number}
    (same : signedText js method key exp = signedText js other name until_) :
    method = other ∧ key = name ∧ js.text exp = js.text until_ := by
  have colon (method : FsSignedMethod) : ':' ∉ method.text.toList := by cases method <;> decide
  have lists : ∀ (method : FsSignedMethod) (key : String) (exp : js.Number),
      (signedText js method key exp).toList =
        method.text.toList ++ ':' :: (key.toList ++ ':' :: (js.text exp).toList) := by
    intro method key exp
    simp [signedText]
  have chars := congrArg String.toList same
  rw [lists, lists] at chars
  obtain ⟨methods, rest⟩ := Separator.append_sep_inj (colon method) (colon other) chars
  -- The last colon is the one before the expiry.
  have back := congrArg List.reverse rest
  simp only [List.reverse_append, List.reverse_cons, List.append_assoc, List.singleton_append]
    at back
  obtain ⟨exps, keys⟩ := Separator.append_sep_inj (by simpa using js.text_colon exp)
    (by simpa using js.text_colon until_) back
  refine ⟨?_, String.toList_inj.mp (List.reverse_inj.mp keys),
    String.toList_inj.mp (List.reverse_inj.mp exps)⟩
  cases method <;> cases other <;> first | rfl | exact absurd methods (by decide)

/-- Every signed URL has the signature of its own text. -/
def Signed (s : Server js) : Prop :=
  ∀ signed ∈ s.issued,
    signed.signature = signFsRequest js hmac signed.method signed.objectKey signed.exp

variable {hmac}

theorem Signed.step {s : Server js} (signed : Signed hmac s) (op : Op js) :
    Signed hmac (step js hmac s op) := by
  cases op with
  | request r now body => exact signed
  | issue method key expiresIn now =>
    intro url member
    rcases List.mem_append.mp member with old | new
    · exact signed url old
    · simp only [createSignedRequest] at new
      split at new
      · rw [Option.toList_some, List.mem_singleton] at new
        subst new
        rfl
      · cases new

theorem authorize_issued {s : Server js} (signed : Signed hmac s) {r : Request}
    {method : FsSignedMethod} {now : Int} {key : String} (named : r.method = method.text)
    (unforged : ∀ text, r.get "sig" = some (hmac text) →
      ∃ signed ∈ s.issued, signedText js signed.method signed.objectKey signed.exp = text)
    (authorized : authorize js hmac r method now = some key) : Issued js s r now := by
  unfold authorize at authorized
  split at authorized
  next own signature hasKey hasSig =>
    split at authorized
    next verified =>
      unfold verifyFsRequest at verified
      split at verified
      · cases verified
      next current =>
        have same : signFsRequest js hmac method own (js.ofText (r.get "exp")) = signature := by
          simpa using verified
        obtain ⟨url, member, text⟩ := unforged _ (hasSig.trans (congrArg some same.symm))
        obtain ⟨methods, keys, exps⟩ := signedText_inj text
        refine ⟨url, member, by rw [methods, named], by rw [hasKey, keys], ?_, ?_⟩
        · rw [hasSig, signed url member, ← same, signFsRequest, signFsRequest, text]
        · rw [js.passed_of_text _ _ now exps]
          simpa using fun passed => current (.inr passed)
    · cases authorized
  · cases authorized

/-! ## Paths beneath the root -/

theorem locate_resolve (cwd : Path) (paths : List Path) :
    render (locate (resolve cwd paths)) = resolve cwd paths := by
  rw [resolve, locate_render (plain_locate _)]

/-- The path of an object leads to the root or beneath it. -/
theorem resolveFsObjectPath_spec {cwd root key full : Path}
    (resolved : resolveFsObjectPath cwd root key = some full) :
    render (locate full) = full ∧ locate (resolve cwd [root]) <+: locate full := by
  simp only [resolveFsObjectPath] at resolved
  split at resolved
  · cases resolved
  rename_i inside
  obtain rfl := Option.some.inj resolved
  refine ⟨locate_resolve _ _, ?_⟩
  have normal := locate_resolve cwd [resolve cwd [root], key.dropWhile fun c => c = '/' || c = '\\']
  generalize resolve cwd [resolve cwd [root], key.dropWhile fun c => c = '/' || c = '\\'] = full
    at inside normal
  by_cases same : full = resolve cwd [root]
  · exact same ▸ List.prefix_refl _
  have longer : resolve cwd [root] ++ ['/'] <+: full := by
    by_contra outside
    exact inside ⟨same, outside⟩
  rw [← locate_resolve cwd [root], ← normal] at longer
  exact prefix_of_render (plain_locate _) (plain_locate _) longer

/-- The temporary file of an upload is beneath the root, but for an object that is the root. -/
theorem tmp_beneath {names base : List Path} (plain : ∀ name ∈ names, Plain name)
    (below : base <+: names) :
    base <+: locate (render names ++ tmpSuffix) ↔ (names = base → base = []) := by
  have suffixed {last : Path} (noSlash : '/' ∉ last) : Plain (last ++ tmpSuffix) := by
    have long : 2 < (last ++ tmpSuffix).length := by
      rw [List.length_append]
      exact Nat.lt_add_left _ (by decide)
    refine ⟨?_, ?_, ?_, ?_⟩
    · intro empty
      rw [empty] at long
      simp at long
    · intro dot
      rw [dot] at long
      simp at long
    · intro dots
      rw [dots] at long
      simp at long
    · rw [List.mem_append]
      exact fun slash => slash.elim noSlash (by decide)
  rcases List.eq_nil_or_concat names with rfl | ⟨init, last, rfl⟩
  · obtain rfl := List.prefix_nil.mp below
    simp
  · rw [List.concat_eq_append] at plain below ⊢
    have plainInit : ∀ name ∈ init ++ [last ++ tmpSuffix], Plain name := by
      intro name member
      rcases List.mem_append.mp member with old | new
      · exact plain name (List.mem_append_left _ old)
      · rw [List.mem_singleton.mp new]
        exact suffixed (plain last (by simp)).noSlash
    rw [render_concat, locate_render plainInit]
    rcases List.prefix_concat_iff.mp below with rfl | inside
    · have differ : ¬init ++ [last] <+: init ++ [last ++ tmpSuffix] := by
        rw [List.prefix_append_right_inj]
        intro same
        have equal := List.cons_prefix_cons.mp same
        exact absurd (List.self_eq_append_right.mp equal.1) (by decide)
      simp [differ]
    · have shorter : init ++ [last] ≠ base := by
        rintro rfl
        have long := inside.length_le
        simp only [List.length_append, List.length_singleton] at long
        omega
      exact iff_of_true (inside.trans (List.prefix_append _ _)) fun same => absurd same shorter

/-! ## Runs -/

theorem lawful_iff {cwd root : Path} {s : Server js} (signed : Signed hmac s) (op : Op js)
    (unforged : Unforged js hmac s op) :
    Lawful js hmac cwd root s op ↔ StaysInside js hmac cwd root op := by
  cases op with
  | issue method key expiresIn now => exact Iff.rfl
  | request r now body =>
    simp only [Lawful, StaysInside, handleFsStorageRequest]
    by_cases route : r.pathname = fsStorageRoute
    · rw [if_neg (not_not.mpr route)]
      by_cases get : r.method = "GET"
      · have named : r.method = FsSignedMethod.get.text := get
        rw [if_pos get]
        apply iff_of_true
        · intro access member
          split at member
          · cases member
          rename_i key authorized
          split at member
          · cases member
          rename_i full resolved
          obtain rfl := List.mem_singleton.mp member
          exact ⟨authorize_issued signed named unforged authorized,
            (resolveFsObjectPath_spec resolved).2⟩
        · intro _ put
          rw [get] at put
          exact absurd put (by decide)
      · rw [if_neg get]
        by_cases put : r.method = "PUT"
        · have named : r.method = FsSignedMethod.put.text := put
          rw [if_pos put]
          cases authorized : authorize js hmac r .put now with
          | none => simp
          | some key =>
            simp only [Option.some.injEq, forall_eq', route, put, forall_const]
            cases resolved : resolveFsObjectPath cwd root key.toList with
            | none => simp
            | some full =>
              obtain ⟨normal, below⟩ := resolveFsObjectPath_spec resolved
              have issued := authorize_issued signed named unforged authorized
              have tmp := tmp_beneath (plain_locate full) below
              rw [normal] at tmp
              have root_iff : some full = some (resolve cwd [root]) ↔
                  locate full = locate (resolve cwd [root]) := by
                constructor
                · intro same
                  rw [Option.some.inj same]
                · intro same
                  rw [← normal, same, locate_resolve]
              cases body with
              | false => simp
              | true =>
                simp [Access.path, Beneath, issued, below, tmp, root_iff]
        · rw [if_neg put]
          exact iff_of_true (by simp) fun _ same => absurd same put
    · rw [if_pos route]
      exact iff_of_true (by simp) fun same => absurd same route

theorem along_lawful {cwd root : Path} {s : Server js} (signed : Signed hmac s) {ops : List (Op js)}
    (unforged : Along (step js hmac) (Unforged js hmac) s ops) :
    Along (step js hmac) (Lawful js hmac cwd root) s ops ↔
      ∀ op ∈ ops, StaysInside js hmac cwd root op := by
  induction ops generalizing s with
  | nil => simp [Along]
  | cons op rest ih =>
    rw [Along, lawful_iff signed op unforged.1, ih (signed.step op) unforged.2,
      List.forall_mem_cons]

/-- Where no signature is forged, every request of a run that is answered from a file carries a
signature issued for it and touches only files beneath the root, just when no PUT has a key that
leads to the root itself. -/
theorem requests_lawful (js : Numbers) (hmac : String → String) (cwd root : Path)
    (ops : List (Op js)) (unforged : Along (step js hmac) (Unforged js hmac) {} ops) :
    Along (step js hmac) (Lawful js hmac cwd root) {} ops ↔
      ∀ op ∈ ops, StaysInside js hmac cwd root op :=
  along_lawful (by intro url member; cases member) unforged

/-- The numbers that are whole and not negative. -/
def wholeNumbers : Numbers where
  Number := Nat
  ofText text := (text.map fun digits => Nat.ofDigitChars 10 digits.toList 0).getD 0
  text n := .ofList (Nat.toDigits 10 n)
  isFinite _ := true
  passed exp now := exp * 1000 < now
  expiry now expiresIn := (now.toNat + expiresIn * 1000) / 1000
  isDate exp := exp ≤ 8640000000000
  text_colon n := by
    rw [String.toList_ofList]
    exact Separator.notMem_toDigits (by decide) n
  passed_of_text n m now same := by
    rw [Separator.toDigits_inj (String.ofList_injective same)]

def hmacOf (text : String) : String := "hmac:" ++ text

/-- A request that uses the URL for an upload. -/
def uploadRequest (key : String) : Request where
  method := "PUT"
  pathname := fsStorageRoute
  searchParams := [("exp", "3600"), ("key", key),
    ("sig", signFsRequest wholeNumbers hmacOf .put key (3600 : Nat))]

def upload (key : String) : List (Op wholeNumbers) :=
  [.issue .put key none 0, .request (uploadRequest key) 1000 true]

theorem issued_upload (key : String) :
    (step wholeNumbers hmacOf {} (.issue .put key none 0)).issued =
      [{ method := .put, objectKey := key, exp := (3600 : Nat),
         signature := signFsRequest wholeNumbers hmacOf .put key (3600 : Nat) }] := by
  rfl

theorem unforged_upload (key : String) :
    Along (step wholeNumbers hmacOf) (Unforged wholeNumbers hmacOf) {} (upload key) := by
  refine ⟨trivial, ?_, trivial⟩
  intro text presented
  rw [issued_upload]
  refine ⟨_, List.mem_singleton_self _, ?_⟩
  have same : "hmac:" ++ signedText wholeNumbers .put key (3600 : Nat) = "hmac:" ++ text :=
    Option.some.inj presented
  have chars := congrArg String.toList same
  rw [String.toList_append, String.toList_append, List.append_cancel_left_eq] at chars
  exact String.toList_inj.mp chars

theorem authorize_upload (key : String) :
    authorize wholeNumbers hmacOf (uploadRequest key) .put 1000 = some key := by
  have hour : Nat.ofDigitChars 10 "3600".toList 0 = 3600 := by decide
  have exp : wholeNumbers.ofText ((uploadRequest key).get "exp") = (3600 : Nat) := hour
  have verified : verifyFsRequest wholeNumbers hmacOf .put key (3600 : Nat)
      (signFsRequest wholeNumbers hmacOf .put key (3600 : Nat)) 1000 = true := by
    simp [verifyFsRequest, wholeNumbers]
  have hasKey : (uploadRequest key).get "key" = some key := rfl
  have hasSig : (uploadRequest key).get "sig" =
      some (signFsRequest wholeNumbers hmacOf .put key (3600 : Nat)) := rfl
  rw [authorize, hasKey, hasSig, exp]
  exact if_pos verified

theorem requests_lawful_upload :
    Along (step wholeNumbers hmacOf) (Lawful wholeNumbers hmacOf "/srv".toList "data".toList) {}
      (upload "\\a/../b//c") := by
  apply (requests_lawful _ _ _ _ _ (unforged_upload _)).mpr
  intro op member
  rcases List.mem_cons.mp member with rfl | member
  · trivial
  · obtain rfl := List.mem_singleton.mp member
    intro _ _ _ key authorized resolved
    obtain rfl := Option.some.inj ((authorize_upload _).symm.trans authorized)
    revert resolved
    decide

/-- An upload to the root writes beside it. -/
theorem root_upload :
    ¬Along (step wholeNumbers hmacOf) (Lawful wholeNumbers hmacOf "/srv".toList "data".toList) {}
      (upload ".") := by
  intro lawful
  have stays := (along_lawful (by intro url member; cases member) (unforged_upload ".")).mp lawful
  have resolved : resolveFsObjectPath "/srv".toList "data".toList ".".toList =
      some (resolve "/srv".toList ["data".toList]) := by decide
  have root := stays (.request (uploadRequest ".") 1000 true)
    (List.mem_cons_of_mem _ (List.mem_singleton_self _)) rfl rfl rfl "." (authorize_upload ".")
    resolved
  revert root
  decide

end HelixKit.Backend.FsRequests
