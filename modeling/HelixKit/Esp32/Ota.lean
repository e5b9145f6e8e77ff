/-
Purpose: The over-the-air update service of the ESP32 platform: parsing the
  request, the update task, and which partition the device boots afterwards.
Trusted boundary: none
Main exports: ota_task_safe
-/
import HelixKit.Lib.Runs
import Mathlib.Data.Fintype.Basic

namespace HelixKit.Esp32.Ota

/-- A C string: its bytes, without the terminating NUL. -/
abbrev CString := List UInt8

/-- The `esp_err_t` values other than `ESP_OK`. -/
inductive EspErr where
  | noMem
  | invalidArg
  | invalidState
  | invalidSize
  | notFound
  | invalidResponse
  | invalidCrc
  | other (code : Int)
deriving Repr, DecidableEq

/-! ### The request -/

/-- A member of the decoded JSON payload, as far as the parser tells them apart. -/
inductive Json where
  | null
  | string (value : CString)
  | other
deriving Repr, DecidableEq

/-- The payload of a command. -/
inductive Payload where
  | object (fields : List (String × Json))
  | other
deriving Repr, DecidableEq

/-- `ota_ota_update_request_t`; `none` is a `NULL` pointer. -/
structure UpdateRequest where
  firmware_url : Option CString
  device_path : Option CString
  package_path : Option CString
  version : Option CString
  sha256 : Option CString
deriving Repr, DecidableEq

/-- An optional string member of the object. -/
def stringField (fields : List (String × Json)) (name : String) : Except EspErr (Option CString) :=
  match fields.lookup name with
  | none | some .null => .ok none
  | some (.string value) => .ok (some value)
  | some .other => .error .invalidArg

def ota_parse_ota_update_request : Payload → Except EspErr UpdateRequest
  | .other => .error .invalidArg
  | .object fields => do
      let firmware_url ← stringField fields "firmwareUrl"
      let device_path ← stringField fields "devicePath"
      let package_path ← stringField fields "packagePath"
      let version ← stringField fields "version"
      let sha256 ← stringField fields "sha256"
      return { firmware_url, device_path, package_path, version, sha256 }

/-- `ota_source_t`. -/
inductive Source where
  | directUrl
  | packagePath
  | devicePath
deriving Repr, DecidableEq

/-- What the dispatcher keeps of the command that it answers. -/
structure Invocation where
  service : String := ""
  request_id : String := ""
  response_enabled : Bool := false
deriving Repr, DecidableEq

/-- `ota_request_t`. -/
structure Request where
  source : Source := .directUrl
  url : CString := []
  path : CString := []
  version : CString := []
  sha256 : CString := []
  invocation : Invocation := {}
deriving Repr, DecidableEq

def urlMaxBytes : Nat := 512
def pathMaxBytes : Nat := 256
def versionMaxBytes : Nat := 64
def sha256MaxBytes : Nat := 80

/-- Copies a string that may be `NULL` into a buffer of `out_len` bytes. -/
def copy_optional (out_len : Nat) : Option CString → Except EspErr CString
  | none | some [] => .ok []
  | some value => if value.length ≥ out_len then .error .invalidSize else .ok value

/-- The string is there and not empty. -/
def given (value : Option CString) : Bool := value.any (· ≠ [])

/-- The request starts as zeros, the invocation that the handler has just put
there included. -/
def parse_ota_request_payload (payload : Payload) : Except EspErr Request := do
  let decoded ← ota_parse_ota_update_request payload
  let version ← copy_optional versionMaxBytes decoded.version
  let sha256 ← copy_optional sha256MaxBytes decoded.sha256
  if given decoded.firmware_url then
    let url ← copy_optional urlMaxBytes decoded.firmware_url
    return { source := .directUrl, url, version, sha256 }
  else if given decoded.package_path then
    let path ← copy_optional pathMaxBytes decoded.package_path
    return { source := .packagePath, path, version, sha256 }
  else if given decoded.device_path then
    let path ← copy_optional pathMaxBytes decoded.device_path
    return { source := .devicePath, path, version, sha256 }
  else
    .error .invalidArg

/-! ### The device -/

abbrev Image := List UInt8
abbrev Digest := Vector UInt8 32

/-- The application partitions.  Updates go to the next one after the running
one, which is another one. -/
structure Device (Partition : Type) where
  running : Partition
  boot : Partition
  next : Partition
  next_ne : next ≠ running
  image : Partition → Image

/-- What `helix_signed_url_request` returns. -/
structure SignedUrl where
  url : CString
  method : String
deriving Repr, DecidableEq

/-- How the steps of one update task come out. -/
structure Steps where
  signed_url : Except EspErr SignedUrl
  /-- What the download has put into the next partition when it stops. -/
  written : Image
  https_ota : Except EspErr Unit
  /-- `esp_ota_get_boot_partition` finds a partition. -/
  boot_lookup : Bool
  get_sha256 : Except EspErr Unit
  /-- `esp_ota_get_running_partition` finds a partition. -/
  running_lookup : Bool

variable {Partition : Type} (sha256 : Image → Digest)

/-- The next partition gets what was downloaded; it becomes the one to boot only
when the update succeeds. -/
def esp_https_ota [DecidableEq Partition] (steps : Steps) (device : Device Partition) :
    Device Partition × Except EspErr Unit :=
  let written := { device with image := Function.update device.image device.next steps.written }
  match steps.https_ota with
  | .ok () => ({ written with boot := device.next }, .ok ())
  | .error err => (written, .error err)

def esp_ota_set_boot_partition (device : Device Partition) (partition : Partition) :
    Device Partition :=
  { device with boot := partition }

def request_signed_download_url (steps : Steps) : Except EspErr CString :=
  match steps.signed_url with
  | .error err => .error err
  | .ok signed_url =>
    if signed_url.method ≠ "GET" ∨ signed_url.url.length ≥ urlMaxBytes then
      .error .invalidResponse
    else
      .ok signed_url.url

def hex_digit (value : UInt8) : UInt8 :=
  if value < 10 then 48 + value else 97 + value - 10

def hexText (digest : List UInt8) : CString :=
  digest.flatMap fun (byte : UInt8) => [hex_digit (byte >>> 4), hex_digit (byte &&& 15)]

def tolower (c : UInt8) : UInt8 := if 65 ≤ c ∧ c ≤ 90 then c + 32 else c

/-- `strcasecmp` finds no difference. -/
def sameIgnoringCase (a b : CString) : Bool := a.map tolower = b.map tolower

def verify_boot_partition_sha256 (request : Request) (steps : Steps) (device : Device Partition) :
    Device Partition × Except EspErr Unit :=
  if request.sha256 = [] then
    (device, .ok ())
  else if request.sha256.length ≠ 64 then
    (device, .error .invalidArg)
  else if steps.boot_lookup = false then
    (device, .error .notFound)
  else
    match steps.get_sha256 with
    | .error err => (device, .error err)
    | .ok () =>
      if sameIgnoringCase (hexText (sha256 (device.image device.boot)).toList) request.sha256 then
        (device, .ok ())
      else if steps.running_lookup then
        (esp_ota_set_boot_partition device device.running, .error .invalidCrc)
      else
        (device, .error .invalidCrc)

/-! ### The task -/

/-- The text of a status: written out, or the name of an error. -/
inductive Message where
  | none
  | text (message : String)
  | errName (err : EspErr)
deriving Repr, DecidableEq

/-- What the task does that others see.  A status is sent only if the invocation
asks for responses. -/
inductive Event where
  | status (state : String) (message : Message) (targetVersion sha256 : CString) (sent : Bool)
  | restart
deriving Repr, DecidableEq

def publish_ota_status (state : String) (message : Message) (request : Request) : Event :=
  .status state message request.version request.sha256 request.invocation.response_enabled

/-- The events of the task, each with the device as it is then. -/
abbrev Trace (Partition : Type) := List (Event × Device Partition)

/-- The end of the task. -/
def finish (request : Request) (device : Device Partition) : Except EspErr Unit → Trace Partition
  | .ok () =>
    [(publish_ota_status "rebooting" (.text "OTA applied successfully") request, device),
      (.restart, device)]
  | .error err => [(publish_ota_status "failed" (.errName err) request, device)]

/-- The address to download from. -/
def downloadUrl (request : Request) (steps : Steps) : Except EspErr CString :=
  match request.source with
  | .directUrl => .ok request.url
  | .packagePath | .devicePath => request_signed_download_url steps

def ota_task [DecidableEq Partition] (request : Request) (steps : Steps)
    (device : Device Partition) : Trace Partition :=
  (publish_ota_status "accepted" .none request, device) ::
    match downloadUrl request steps with
    | .error err => finish request device (.error err)
    | .ok _ =>
      (publish_ota_status "downloading" .none request, device) ::
        match esp_https_ota steps device with
        | (device, .error err) => finish request device (.error err)
        | (device, .ok ()) =>
          let (device, result) := verify_boot_partition_sha256 sha256 request steps device
          finish request device result

/-- A command for the service, and whether the device is provisioned and has the
memory and the task to spare. -/
structure Command where
  method : String
  payload : Option Payload
  provisioned : Bool := true
  allocated : Bool := true
  created : Bool := true
deriving Repr, DecidableEq

/-- The request of a task, as it was parsed. -/
structure Task where
  payload : Payload
  request : Request
  parsed : parse_ota_request_payload payload = .ok request

/-- `running` says that a task is at work; there is one at most. -/
def ota_service_handle_command (running : Bool) (command : Command) : Option Task :=
  if command.method ≠ "ota-update" then none
  else
    match command.payload with
    | none => none
    | some payload =>
      if command.provisioned = false ∨ running = true ∨ command.allocated = false then none
      else
        match parsed : parse_ota_request_payload payload with
        | .error _ => none
        | .ok request => if command.created then some { payload, request, parsed } else none

/-! ### What the announced text says -/

def hexNibble (c : UInt8) : Option UInt8 :=
  if 48 ≤ c ∧ c ≤ 57 then some (c - 48)
  else if 97 ≤ c ∧ c ≤ 102 then some (c - 87)
  else if 65 ≤ c ∧ c ≤ 70 then some (c - 55)
  else none

/-- The bytes that a hexadecimal text, in either case, stands for. -/
def decodeHex : CString → Option (List UInt8)
  | [] => some []
  | [_] => none
  | high :: low :: rest => do
      return ((← hexNibble high) <<< 4 ||| (← hexNibble low)) :: (← decodeHex rest)

/-- A statement about every byte is one about the numbers below 256. -/
theorem forall_byte {P : UInt8 → Prop} (all : ∀ n : Fin 256, P (UInt8.ofFin n)) (byte : UInt8) :
    P byte :=
  all byte.toFin

theorem hexNibble_tolower (c : UInt8) : hexNibble (tolower c) = hexNibble c :=
  forall_byte (P := fun c => hexNibble (tolower c) = hexNibble c) (by decide +kernel) c

theorem hexNibble_digits (byte : UInt8) :
    hexNibble (hex_digit (byte >>> 4)) = some (byte >>> 4) ∧
      hexNibble (hex_digit (byte &&& 15)) = some (byte &&& 15) ∧
      (byte >>> 4) <<< 4 ||| (byte &&& 15) = byte :=
  forall_byte (P := fun byte =>
    hexNibble (hex_digit (byte >>> 4)) = some (byte >>> 4) ∧
      hexNibble (hex_digit (byte &&& 15)) = some (byte &&& 15) ∧
      (byte >>> 4) <<< 4 ||| (byte &&& 15) = byte) (by decide +kernel) byte

theorem decodeHex_hexText (digest : List UInt8) : decodeHex (hexText digest) = some digest := by
  induction digest with
  | nil => rfl
  | cons byte rest ih =>
    obtain ⟨high, low, whole⟩ := hexNibble_digits byte
    have later : decodeHex (rest.flatMap fun (byte : UInt8) =>
        [hex_digit (byte >>> 4), hex_digit (byte &&& 15)]) = some rest := ih
    simp [hexText, decodeHex, high, low, later, whole]

theorem decodeHex_tolower (text : CString) : decodeHex (text.map tolower) = decodeHex text := by
  induction text using decodeHex.induct with
  | case1 => rfl
  | case2 => rfl
  | case3 high low rest ih =>
    simp [decodeHex, hexNibble_tolower, ih]

/-- A text that differs from the digest's in case only stands for the digest. -/
theorem decodeHex_of_same {digest : List UInt8} {text : CString}
    (same : sameIgnoringCase (hexText digest) text = true) : decodeHex text = some digest := by
  have lower : (hexText digest).map tolower = text.map tolower := of_decide_eq_true same
  rw [← decodeHex_tolower text, ← lower, decodeHex_tolower, decodeHex_hexText]

/-! ### A failed update leaves the running partition to boot -/

/-- The payload announces a SHA-256: the member is there and not empty. -/
def Announces (payload : Payload) (text : CString) : Prop :=
  ∃ decoded, ota_parse_ota_update_request payload = .ok decoded ∧ decoded.sha256 = some text ∧
    text ≠ []

/-- With "failed" published the device boots what is running, and it restarts only
into an image of which the announced text is the SHA-256. -/
def SafeAt (payload : Payload) : Event × Device Partition → Prop
  | (.status state _ _ _ _, device) => state = "failed" → device.boot = device.running
  | (.restart, device) => ∀ text, Announces payload text →
      decodeHex text = some (sha256 (device.image device.boot)).toList

def Safe (payload : Payload) (trace : Trace Partition) : Prop :=
  ∀ event ∈ trace, SafeAt sha256 payload event

/-- The task gets to the verification. -/
def Downloads (request : Request) (steps : Steps) : Prop :=
  (∃ url, downloadUrl request steps = .ok url) ∧ steps.https_ota = .ok ()

/-- The verification can be carried out, and undone. -/
def Verifiable (request : Request) (steps : Steps) : Prop :=
  request.sha256 = [] ∨
    request.sha256.length = 64 ∧ steps.boot_lookup = true ∧ steps.get_sha256 = .ok () ∧
      (sameIgnoringCase (hexText (sha256 steps.written).toList) request.sha256 = true ∨
        steps.running_lookup = true)

/-- An update that gets to the verification can carry it out, and one that does not
finds the running partition as the one to boot. -/
structure Restored (request : Request) (steps : Steps) (device : Device Partition) : Prop where
  verifiable : Downloads request steps → Verifiable sha256 request steps
  booted : ¬ Downloads request steps → device.boot = device.running

variable {sha256}

/-- What the parser keeps of a payload that it accepts. -/
theorem parse_kept {payload : Payload} {request : Request}
    (parsed : parse_ota_request_payload payload = .ok request) :
    ∃ decoded, ota_parse_ota_update_request payload = .ok decoded ∧
      copy_optional sha256MaxBytes decoded.sha256 = .ok request.sha256 ∧
        request.invocation = {} := by
  unfold parse_ota_request_payload at parsed
  cases decodes : ota_parse_ota_update_request payload with
  | error err => simp [decodes, bind, Except.bind] at parsed
  | ok decoded =>
  refine ⟨decoded, rfl, ?_⟩
  cases version : copy_optional versionMaxBytes decoded.version with
  | error err => simp [decodes, version, bind, Except.bind] at parsed
  | ok kept =>
  cases sum : copy_optional sha256MaxBytes decoded.sha256 with
  | error err => simp [decodes, version, sum, bind, Except.bind] at parsed
  | ok digest =>
  simp only [decodes, version, sum, bind, Except.bind, pure, Except.pure] at parsed
  -- one address is copied, whichever was given first
  split at parsed
  · split at parsed <;> cases parsed
    exact ⟨rfl, rfl⟩
  split at parsed
  · split at parsed <;> cases parsed
    exact ⟨rfl, rfl⟩
  split at parsed
  · split at parsed <;> cases parsed
    exact ⟨rfl, rfl⟩
  · cases parsed

theorem copy_optional_some {out_len : Nat} {text kept : CString} (nonempty : text ≠ [])
    (copied : copy_optional out_len (some text) = .ok kept) : kept = text := by
  obtain ⟨byte, rest, rfl⟩ := List.exists_cons_of_ne_nil nonempty
  simp only [copy_optional] at copied
  split at copied
  · cases copied
  · cases copied
    rfl

/-- The text kept in the request is the announced one. -/
theorem Announces.kept {payload : Payload} {request : Request} {text : CString}
    (announced : Announces payload text)
    (parsed : parse_ota_request_payload payload = .ok request) : request.sha256 = text := by
  obtain ⟨decoded, decodes, there, nonempty⟩ := announced
  obtain ⟨_, again, copied, -⟩ := parse_kept parsed
  cases decodes.symm.trans again
  rw [there] at copied
  exact copy_optional_some nonempty copied

/-- A text that is kept was announced. -/
theorem announces_of_kept {payload : Payload} {request : Request}
    (parsed : parse_ota_request_payload payload = .ok request) (kept : request.sha256 ≠ []) :
    Announces payload request.sha256 := by
  obtain ⟨decoded, decodes, copied, -⟩ := parse_kept parsed
  refine ⟨decoded, decodes, ?_, kept⟩
  cases there : decoded.sha256 with
  | none =>
    rw [there] at copied
    exact absurd (Except.ok.inj copied).symm kept
  | some text =>
    by_cases empty : text = []
    · rw [there, empty] at copied
      exact absurd (Except.ok.inj copied).symm kept
    · rw [there] at copied
      rw [copy_optional_some empty copied]

section Task

variable {payload : Payload} {request : Request} {steps : Steps} {device : Device Partition}

theorem safe_cons {event : Event × Device Partition} {trace : Trace Partition} :
    Safe sha256 payload (event :: trace) ↔ SafeAt sha256 payload event ∧ Safe sha256 payload trace := by
  simp [Safe]

theorem safeAt_status {state : String} {message : Message} (goesOn : state ≠ "failed") :
    SafeAt sha256 payload (publish_ota_status state message request, device) :=
  fun failed => absurd failed goesOn

/-- A failing task is safe if the running partition is the one to boot. -/
theorem safe_finish_error {err : EspErr} :
    Safe sha256 payload (finish request device (.error err)) ↔ device.boot = device.running := by
  simp [finish, Safe, SafeAt, publish_ota_status]

/-- A task that goes through is safe if the image to boot is the announced one. -/
theorem safe_finish_ok (parsed : parse_ota_request_payload payload = .ok request) :
    Safe sha256 payload (finish request device (.ok ())) ↔
      (request.sha256 ≠ [] →
        decodeHex request.sha256 = some (sha256 (device.image device.boot)).toList) := by
  simp only [finish, safe_cons]
  constructor
  · intro safe nonempty
    exact safe.2.1 _ (announces_of_kept parsed nonempty)
  · intro matching
    refine ⟨safeAt_status (by decide), ?_, by simp [Safe]⟩
    intro text announced
    have kept := announced.kept parsed
    obtain ⟨-, -, -, nonempty⟩ := announced
    subst kept
    exact matching nonempty

/-- The verification, made when the device is about to boot another partition than
the running one. -/
theorem safe_verify (parsed : parse_ota_request_payload payload = .ok request)
    (switched : device.boot ≠ device.running) (written : device.image device.boot = steps.written) :
    Safe sha256 payload
        (finish request (verify_boot_partition_sha256 sha256 request steps device).1
          (verify_boot_partition_sha256 sha256 request steps device).2) ↔
      Verifiable sha256 request steps := by
  unfold verify_boot_partition_sha256 Verifiable
  rw [written]
  by_cases unannounced : request.sha256 = []
  · simp [unannounced, safe_finish_ok parsed]
  by_cases length : request.sha256.length = 64
  swap
  · simp [unannounced, length, safe_finish_error, switched]
  by_cases boot : steps.boot_lookup = true
  swap
  · simp [unannounced, length, boot, safe_finish_error, switched]
  cases read : steps.get_sha256 with
  | error err => simp [unannounced, length, boot, safe_finish_error, switched]
  | ok done =>
    cases same : sameIgnoringCase (hexText (sha256 steps.written).toList) request.sha256 with
    | true =>
      have stands := decodeHex_of_same same
      simp [unannounced, length, boot, safe_finish_ok parsed, written, stands]
    | false =>
      by_cases running : steps.running_lookup = true
      · simp [unannounced, length, boot, running, safe_finish_error, esp_ota_set_boot_partition]
      · simp [unannounced, length, boot, running, safe_finish_error, switched]

/-- A task is safe if and only if the verification, should it get there, can be
carried out and undone, and it starts with the running partition as the one to
boot, should it not get there. -/
theorem ota_task_safe [DecidableEq Partition] (sha256 : Image → Digest) (payload : Payload)
    (request : Request) (steps : Steps) (device : Device Partition)
    (parsed : parse_ota_request_payload payload = .ok request) :
    Safe sha256 payload (ota_task sha256 request steps device) ↔
      Restored sha256 request steps device := by
  have accepted : SafeAt sha256 payload (publish_ota_status "accepted" .none request, device) :=
    safeAt_status (by decide)
  have downloading : SafeAt sha256 payload
      (publish_ota_status "downloading" .none request, device) :=
    safeAt_status (by decide)
  unfold ota_task
  rw [safe_cons, and_iff_right accepted]
  cases address : downloadUrl request steps with
  | error err =>
    have never : ¬ Downloads request steps := by simp [Downloads, address]
    rw [safe_finish_error]
    exact ⟨fun booted => ⟨fun downloads => absurd downloads never, fun _ => booted⟩,
      fun restored => restored.booted never⟩
  | ok url =>
    rw [safe_cons, and_iff_right downloading]
    cases result : steps.https_ota with
    | error err =>
      have never : ¬ Downloads request steps := by simp [Downloads, result]
      simp only [esp_https_ota, result]
      rw [safe_finish_error]
      exact ⟨fun booted => ⟨fun downloads => absurd downloads never, fun _ => booted⟩,
        fun restored => restored.booted never⟩
    | ok done =>
      have downloads : Downloads request steps := ⟨⟨url, address⟩, result⟩
      simp only [esp_https_ota, result]
      rw [safe_verify parsed device.next_ne (by simp)]
      exact ⟨fun verifiable => ⟨fun _ => verifiable, fun never => absurd downloads never⟩,
        fun restored => restored.verifiable downloads⟩

end Task

/-! ### One update after another -/

/-- The device, and the task at work. -/
structure Board (Partition : Type) where
  device : Device Partition
  task : Option Task := none

inductive Op where
  | command (command : Command)
  | work (steps : Steps)

/-- The device boots the partition set to be booted; the other one is next. -/
def esp_restart [DecidableEq Partition] (device : Device Partition) : Device Partition :=
  if switched : device.boot = device.next then
    { device with
      running := device.boot
      next := device.running
      next_ne := by rw [switched]; exact device.next_ne.symm }
  else
    { device with running := device.boot, next_ne := Ne.symm switched }

/-- The device after the last event of a task. -/
def afterTask [DecidableEq Partition] (device : Device Partition) (trace : Trace Partition) :
    Device Partition :=
  match trace.getLast? with
  | some (.restart, last) => esp_restart last
  | some (.status .., last) => last
  | none => device

def step [DecidableEq Partition] (sha256 : Image → Digest) (board : Board Partition) :
    Op → Board Partition
  | .command command =>
    match ota_service_handle_command board.task.isSome command with
    | some task => { board with task }
    | none => board
  | .work steps =>
    match board.task with
    | none => board
    | some task => { device := afterTask board.device (ota_task sha256 task.request steps board.device) }

/-- The update at work, if there is one, can be verified and undone. -/
def WorkVerifiable (sha256 : Image → Digest) (board : Board Partition) : Op → Prop
  | .command _ => True
  | .work steps => ∀ task ∈ board.task,
      Downloads task.request steps → Verifiable sha256 task.request steps

/-- The update at work, if there is one, is safe. -/
def WorkSafe [DecidableEq Partition] (sha256 : Image → Digest) (board : Board Partition) : Op → Prop
  | .command _ => True
  | .work steps => ∀ task ∈ board.task,
      Safe sha256 task.payload (ota_task sha256 task.request steps board.device)

@[simp] theorem esp_restart_boot [DecidableEq Partition] (device : Device Partition) :
    (esp_restart device).boot = (esp_restart device).running := by
  unfold esp_restart
  split <;> rfl

/-- The task ends with a restart or with the status "failed". -/
theorem getLast_task [DecidableEq Partition] (sha256 : Image → Digest) (request : Request)
    (steps : Steps) (device : Device Partition) :
    ∃ last, (ota_task sha256 request steps device).getLast? = some (.restart, last) ∨
      ∃ err, (ota_task sha256 request steps device).getLast? =
        some (publish_ota_status "failed" (.errName err) request, last) := by
  have ending : ∀ (first : Event × Device Partition) (result : Except EspErr Unit)
      (device : Device Partition), ∃ last,
      (first :: finish request device result).getLast? = some (.restart, last) ∨
        ∃ err, (first :: finish request device result).getLast? =
          some (publish_ota_status "failed" (.errName err) request, last) := by
    intro first result device
    cases result with
    | error err => exact ⟨device, Or.inr ⟨err, rfl⟩⟩
    | ok done => exact ⟨device, Or.inl rfl⟩
  unfold ota_task
  cases downloadUrl request steps with
  | error err => exact ending _ _ _
  | ok url =>
    simp only [List.getLast?_cons_cons]
    split
    · exact ending _ _ _
    · exact ending _ _ _

/-- After a safe task the device boots what is running. -/
theorem afterTask_booted [DecidableEq Partition] {sha256 : Image → Digest} {payload : Payload}
    {request : Request} {steps : Steps} {device : Device Partition}
    (safe : Safe sha256 payload (ota_task sha256 request steps device)) :
    (afterTask device (ota_task sha256 request steps device)).boot =
      (afterTask device (ota_task sha256 request steps device)).running := by
  obtain ⟨last, restarted | ⟨err, failed⟩⟩ := getLast_task sha256 request steps device
  · simp [afterTask, restarted]
  · have member := List.mem_of_getLast? failed
    simp only [afterTask, failed]
    exact safe _ member rfl

/-- Every task of a run is safe, from a device that boots what is running, if every
verification can be carried out and undone. -/
theorem run_safe [DecidableEq Partition] (sha256 : Image → Digest) {board : Board Partition}
    {ops : List Op} (booted : board.device.boot = board.device.running)
    (verifiable : Runs.Along (step sha256) (WorkVerifiable sha256) board ops) :
    Runs.Along (step sha256) (WorkSafe sha256) board ops := by
  have safeNow : ∀ (board : Board Partition) (op : Op), board.device.boot = board.device.running →
      WorkVerifiable sha256 board op → WorkSafe sha256 board op := by
    intro board op booted verifiable
    cases op with
    | command command => trivial
    | work steps =>
      intro task atWork
      rw [ota_task_safe sha256 task.payload task.request steps board.device task.parsed]
      exact ⟨verifiable task atWork, fun _ => booted⟩
  refine Runs.Along.always (fun board => board.device.boot = board.device.running) ?_ safeNow booted
    verifiable
  intro board op booted verifiable
  have safe := safeNow board op booted verifiable
  cases op with
  | command command =>
    simp only [step]
    split <;> exact booted
  | work steps =>
    simp only [step]
    cases atWork : board.task with
    | none => exact booted
    | some task => exact afterTask_booted (safe task atWork)

/-! ### An announced text that is too short -/

/-- A device with two partitions, after its first boot. -/
def twoPartitions : Device Bool :=
  { running := false, boot := false, next := true, next_ne := (by decide), image := fun _ => [] }

/-- A digest that stands in for SHA-256 where only its length matters. -/
def zeroDigest : Image → Digest := fun _ => Vector.replicate 32 0

/-- Every step of the update comes out well. -/
def allWell : Steps :=
  { signed_url := .error .notFound, written := [1, 2, 3], https_ota := .ok (), boot_lookup := true,
    get_sha256 := .ok (), running_lookup := true }

/-- A payload with an address and this text as the SHA-256. -/
def announcing (text : CString) : Payload :=
  .object [("firmwareUrl", .string [104]), ("sha256", .string text)]

def announcingRequest (text : CString) : Request :=
  { url := [104], sha256 := text }

theorem ota_task_safe_full :
    Safe zeroDigest (announcing (List.replicate 64 48))
      (ota_task zeroDigest (announcingRequest (List.replicate 64 48)) allWell twoPartitions) := by
  refine (ota_task_safe zeroDigest _ (announcingRequest (List.replicate 64 48)) allWell
    twoPartitions (by decide)).2 ⟨fun _ => Or.inr ?_, fun _ => rfl⟩
  exact ⟨rfl, rfl, rfl, Or.inr rfl⟩

/-- The task of an announced update. -/
def atWork : Board Bool where
  device := twoPartitions
  task := some
    ⟨announcing (List.replicate 64 48), announcingRequest (List.replicate 64 48), by decide⟩

theorem run_safe_atWork :
    Runs.Along (step zeroDigest) (WorkSafe zeroDigest) atWork [.work allWell] :=
  run_safe zeroDigest rfl ⟨by rintro _ ⟨⟩ _; exact .inr ⟨rfl, rfl, rfl, .inr rfl⟩, trivial⟩

/-- Two characters are announced: the task fails with the new partition set to be
booted. -/
theorem short_sha256_fails_switched :
    ∃ request, parse_ota_request_payload (announcing [97, 98]) = .ok request ∧
      ¬ Safe zeroDigest (announcing [97, 98])
        (ota_task zeroDigest request allWell twoPartitions) := by
  refine ⟨announcingRequest [97, 98], by decide, ?_⟩
  intro safe
  have failed := safe
    (publish_ota_status "failed" (.errName .invalidArg) (announcingRequest [97, 98]),
      (esp_https_ota allWell twoPartitions).1)
    (by simp [ota_task, downloadUrl, announcingRequest, esp_https_ota, allWell,
      verify_boot_partition_sha256, finish])
    rfl
  exact absurd failed (by decide)

end HelixKit.Esp32.Ota
