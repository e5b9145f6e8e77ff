/-
Purpose: The set-config command of the provisioning service: the checks of a request, the
  enrollment that validates a cloud configuration, and the fields that are stored one by one.
Trusted boundary: allocations succeed; a value that is set is stored, whether it is committed or not
Main exports: set_config_kept
-/
import HelixKit.Esp32.Certificates
import HelixKit.Esp32.Ota
import HelixKit.Lib.GoString

namespace HelixKit.Esp32.Provisioning

open Ota (CString EspErr)
open Certificates (NvsKey Bundle)
open GoJson (asciiBytes)

inductive CJson where
  | null
  | bool (value : Bool)
  | number (valueint : Int)
  | string (valuestring : CString)
  | array (items : List CJson)
  | object (fields : List (CString × CJson))

abbrev Values := List (CString × CJson)

/-! ## The storage -/

/-- The configuration by namespace and key, and the certificate bundle. -/
structure Store where
  config : CString → CString → Option CString := fun _ _ => none
  certs : NvsKey → Option String := fun _ => none

theorem Store.ext {store other : Store} (config : store.config = other.config)
    (certs : store.certs = other.certs) : store = other := by
  cases store
  cases other
  cases config
  cases certs
  rfl

/-- What `nvs_set_str` does: a value can be stored although the call reports an error. -/
inductive WriteOutcome where
  | written
  | failed (err : EspErr)
  | unfinished (err : EspErr)

def WriteOutcome.stores : WriteOutcome → Bool
  | .written | .unfinished _ => true
  | .failed _ => false

def WriteOutcome.error : WriteOutcome → Option EspErr
  | .written => none
  | .failed err | .unfinished err => some err

/-- The outcomes of opening a namespace, setting a value and committing it. -/
structure SetOutcome where
  opened : Option EspErr := none
  set : WriteOutcome := .written
  commit : Option EspErr := none

/-- What `mqtt_cert_bundle_clear` got to erase, which keys can be read afterwards, what the
enrollment returned, and how its bundle was stored. -/
structure CertOutcomes where
  erased : NvsKey → Bool := fun _ => true
  readable : NvsKey → Bool := fun _ => true
  enrolled : Except EspErr Bundle
  opened : Option EspErr := none
  sets : NvsKey → WriteOutcome := fun _ => .written
  commit : Option EspErr := none

/-- The outcomes of what one request calls. -/
structure Outcomes where
  reads : CString → CString → Option EspErr := fun _ _ => none
  sets : CString → SetOutcome := fun _ => {}
  certs : CertOutcomes
  connection : Option EspErr := none
  wifi : Option EspErr := none

def HELIX_CONFIG_NAMESPACE : CString := asciiBytes "helix_config"
def HELIX_CONFIG_KEY_MAX_BYTES : Nat := 64
def HELIX_CONFIG_VALUE_MAX_BYTES : Nat := 192

def build_key (domain key : CString) (out_len : Nat) : Except EspErr CString :=
  if domain = [] ∨ key = [] then .error .invalidArg
  else
    let written := domain ++ asciiBytes "." ++ key
    if written.length ≥ out_len then .error .invalidSize else .ok written

def build_namespace (domain : CString) (out_len : Nat) : Except EspErr CString :=
  if domain = [] then .error .invalidArg
  else
    let written := asciiBytes "hx_" ++ domain
    if written.length ≥ out_len then .error .invalidSize else .ok written

section Request

variable (outcomes : Outcomes) (store : Store)

def read_string_from_namespace (namespace_name key : CString) (out_len : Nat) :
    Except EspErr CString :=
  match outcomes.reads namespace_name key, store.config namespace_name key with
  | some err, _ => .error err
  | none, none => .error .notFound
  | none, some value => if value.length < out_len then .ok value else .error .invalidSize

def helix_config_get_string (domain key : CString) (out_len : Nat) : Except EspErr CString := do
  let namespace_name ← build_namespace domain 16
  match read_string_from_namespace outcomes store namespace_name key out_len with
  | .ok value => return value
  | .error _ =>
    let nvs_key ← build_key domain key HELIX_CONFIG_KEY_MAX_BYTES
    read_string_from_namespace outcomes store HELIX_CONFIG_NAMESPACE nvs_key out_len

def helix_config_get_optional_string (domain key : CString) (out_len : Nat) :
    Except EspErr CString :=
  match helix_config_get_string outcomes store domain key out_len with
  | .error .notFound => .ok []
  | result => result

def Store.set (namespace_name key value : CString) : Store :=
  { store with
    config := Function.update store.config namespace_name
      (Function.update (store.config namespace_name) key (some value)) }

/-- The error and the storage afterwards. -/
def helix_config_set_string (domain key value : CString) : Option EspErr × Store :=
  match build_namespace domain 16 with
  | .error err => (some err, store)
  | .ok namespace_name =>
    let outcome := outcomes.sets key
    match outcome.opened with
    | some err => (some err, store)
    | none =>
      let after := if outcome.set.stores then store.set namespace_name key value else store
      match outcome.set.error with
      | some err => (some err, after)
      | none => (outcome.commit, after)

/-! ## Domains -/

structure Field where
  key : CString
  required : Bool

inductive Validate where
  | validate_cloud_config
  | validate_wifi_config

structure Domain where
  domain : CString
  fields : List Field
  restart_required : Bool
  validate : Option Validate

def value_to_string : CJson → Option CString
  | .string value => some value
  | .number value => some (asciiBytes (toString value))
  | .bool value => some (asciiBytes (if value then "true" else "false"))
  | _ => none

def isScalar : CJson → Bool
  | .string _ | .number _ | .bool _ => true
  | _ => false

def required_field_error (domain : Domain) (values : Values) (field : Field) : Option EspErr :=
  if !field.required then none
  else match values.lookup field.key with
    | none =>
      match helix_config_get_string outcomes store domain.domain field.key
        HELIX_CONFIG_VALUE_MAX_BYTES with
      | .ok (_ :: _) => none
      | _ => some .invalidArg
    | some value => if isScalar value then none else some .invalidArg

def validate_required_fields (domain : Domain) (values : Values) : Option EspErr :=
  domain.fields.findSome? (required_field_error outcomes store domain values)

/-! ## Validation for the cloud -/

def helix_config_overlay_string (out : CString) (out_len : Nat) (values : Values)
    (key : CString) : Except EspErr CString :=
  match values.lookup key with
  | none => .ok out
  | some (.string value) => if value.length ≥ out_len then .error .invalidArg else .ok value
  | some _ => .error .invalidArg

def isSpace (byte : UInt8) : Bool := byte = 0x20 || 0x09 ≤ byte && byte ≤ 0x0D
def isDigit (byte : UInt8) : Bool := 0x30 ≤ byte && byte ≤ 0x39

/-- `strtol` in base 10: the number and what is left of the text. -/
def strtol (value : CString) : Int × CString :=
  let text := value.dropWhile isSpace
  let (negative, text) := match text with
    | 0x2D :: rest => (true, rest)
    | 0x2B :: rest => (false, rest)
    | _ => (false, text)
  match text.takeWhile isDigit with
  | [] => (0, value)
  | digits =>
    let number : Int := digits.foldl (fun number digit => 10 * number + (digit.toNat - 0x30)) 0
    (if negative then -number else number, text.dropWhile isDigit)

def helix_config_parse_u16 (value : CString) : Option Nat :=
  let (parsed, rest) := strtol value
  if value = [] ∨ rest ≠ [] ∨ parsed ≤ 0 ∨ parsed > 65535 then none else some parsed.toNat

/-- The text of a port is cut to the buffer of eight bytes. -/
def helix_config_overlay_u16 (out : Nat) (values : Values) (key : CString) : Except EspErr Nat :=
  let parse (text : CString) :=
    match helix_config_parse_u16 (text.take 7) with
    | some port => .ok port
    | none => .error .invalidArg
  match values.lookup key with
  | none => .ok out
  | some (.string value) => parse value
  | some (.number value) => parse (asciiBytes (toString value))
  | some _ => .error .invalidArg

structure CloudConfig where
  device_id : CString := []
  device_token : CString := []
  api_url : CString := []
  mqtt_host : CString := []
  mqtt_tls_name : CString := []
  profile_id : CString := []
  mqtt_port : Nat := 0

def cloud : CString := asciiBytes "cloud"

/-- What was loaded before a failure stays in the configuration. -/
def cloud_config_load : ExceptT EspErr (StateM CloudConfig) Unit := do
  let required (key : CString) (out_len : Nat) : ExceptT EspErr (StateM CloudConfig) CString :=
    liftExcept (helix_config_get_string outcomes store cloud key out_len)
  let optional (key : CString) (out_len : Nat) : ExceptT EspErr (StateM CloudConfig) CString :=
    liftExcept (helix_config_get_optional_string outcomes store cloud key out_len)
  let device_id ← required (asciiBytes "deviceId") 64
  modify fun config => { config with device_id }
  let device_token ← required (asciiBytes "deviceToken") 160
  modify fun config => { config with device_token }
  let api_url ← required (asciiBytes "apiUrl") 160
  modify fun config => { config with api_url }
  let mqtt_host ← required (asciiBytes "mqttHost") 96
  modify fun config => { config with mqtt_host }
  let mqtt_port ← required (asciiBytes "mqttPort") 8
  let some mqtt_port := helix_config_parse_u16 mqtt_port | throw .invalidArg
  modify fun config => { config with mqtt_port }
  let mqtt_tls_name ← optional (asciiBytes "mqttTlsName") 96
  modify fun config => { config with mqtt_tls_name }
  let profile_id ← optional (asciiBytes "profileId") 64
  modify fun config => { config with profile_id }

def overlay_cloud_config (values : Values) : Except EspErr CloudConfig := do
  let config := ((cloud_config_load outcomes store).run.run {}).2
  let device_id ← helix_config_overlay_string config.device_id 64 values (asciiBytes "deviceId")
  let device_token ←
    helix_config_overlay_string config.device_token 160 values (asciiBytes "deviceToken")
  let api_url ← helix_config_overlay_string config.api_url 160 values (asciiBytes "apiUrl")
  let mqtt_host ← helix_config_overlay_string config.mqtt_host 96 values (asciiBytes "mqttHost")
  let mqtt_tls_name ←
    helix_config_overlay_string config.mqtt_tls_name 96 values (asciiBytes "mqttTlsName")
  let profile_id ←
    helix_config_overlay_string config.profile_id 64 values (asciiBytes "profileId")
  let mqtt_port ← helix_config_overlay_u16 config.mqtt_port values (asciiBytes "mqttPort")
  return { device_id, device_token, api_url, mqtt_host, mqtt_tls_name, profile_id, mqtt_port }

def cloud_config_uses_mqtt_tls (config : CloudConfig) : Bool :=
  config.mqtt_tls_name ≠ [] && config.mqtt_tls_name ≠ asciiBytes "insecure"

end Request

/-! ## The bundle -/

abbrev Certs := NvsKey → Option String

def mqtt_cert_bundle_clear (outcomes : CertOutcomes) (certs : Certs) : Certs := fun key =>
  if outcomes.erased key then none else certs key

def load_bundle_from_nvs (outcomes : CertOutcomes) (certs : Certs) : Bool :=
  NvsKey.order.all fun key => outcomes.readable key && (certs key).isSome

/-- The keys are set one after another, and then committed. -/
def set_keys (outcomes : CertOutcomes) (bundle : Bundle) : List NvsKey → Certs →
    Option EspErr × Certs
  | [], certs => (outcomes.commit, certs)
  | key :: keys, certs =>
    let after :=
      if (outcomes.sets key).stores then Function.update certs key (some (bundle.get key))
      else certs
    match (outcomes.sets key).error with
    | some err => (some err, after)
    | none => set_keys outcomes bundle keys after

def persist_bundle_to_nvs (outcomes : CertOutcomes) (bundle : Bundle) (certs : Certs) :
    Option EspErr × Certs :=
  match outcomes.opened with
  | some err => (some err, certs)
  | none => set_keys outcomes bundle NvsKey.order certs

def enroll_certificate (outcomes : CertOutcomes) (certs : Certs) : Option EspErr × Certs :=
  match outcomes.enrolled with
  | .error err => (some err, certs)
  | .ok bundle => persist_bundle_to_nvs outcomes bundle certs

def mqtt_cert_bundle_load_or_enroll (outcomes : CertOutcomes) (certs : Certs) :
    Option EspErr × Certs :=
  if load_bundle_from_nvs outcomes certs then (none, certs) else enroll_certificate outcomes certs

/-! ## The command -/

section Command

variable (mqtt : Bool) (outcomes : Outcomes)

/-- `mqtt` is `CONFIG_HELIX_TRANSPORT_MQTT`. -/
def validate_cloud_config (store : Store) (values : Values) (force : Bool) :
    Option EspErr × Store :=
  if force then (none, store)
  else match overlay_cloud_config outcomes store values with
    | .error err => (some err, store)
    | .ok candidate =>
      if !mqtt then (none, store)
      else if cloud_config_uses_mqtt_tls candidate then
        let cleared := mqtt_cert_bundle_clear outcomes.certs store.certs
        let (err, certs) := mqtt_cert_bundle_load_or_enroll outcomes.certs cleared
        match err with
        | some err => (some err, { store with certs })
        | none => (outcomes.connection, { store with certs })
      else (outcomes.connection, store)

def overlay_wifi_config (values : Values) : Except EspErr Unit := do
  let _ ← helix_config_overlay_string [] 33 values (asciiBytes "ssid")
  let _ ← helix_config_overlay_string [] 65 values (asciiBytes "password")

/-- The connection to the candidate network, and back to the old one, stores no configuration. -/
def validate_wifi_config (values : Values) (force : Bool) : Option EspErr :=
  if force then none
  else match overlay_wifi_config values with
    | .error err => some err
    | .ok () => outcomes.wifi

def validate (domain : Domain) (store : Store) (values : Values) (force : Bool) :
    Option EspErr × Store :=
  match domain.validate with
  | none => (none, store)
  | some .validate_cloud_config => validate_cloud_config mqtt outcomes store values force
  | some .validate_wifi_config => (validate_wifi_config outcomes values force, store)

def persist_values (domain : CString) (values : Values) :
    List Field → Store → Option EspErr × Store
  | [], store => (none, store)
  | field :: fields, store =>
    match values.lookup field.key with
    | none => persist_values domain values fields store
    | some value =>
      match value_to_string value with
      | none => (some .invalidArg, store)
      | some text =>
        match helix_config_set_string outcomes store domain field.key text with
        | (some err, store) => (some err, store)
        | (none, store) => persist_values domain values fields store

inductive Reply where
  | error (message : String)
  | rejected (err : EspErr)
  | storeFailed (err : EspErr)
  | accepted (restart_required : Bool)

def Reply.failed : Reply → Bool
  | .rejected _ | .storeFailed _ => true
  | .error _ | .accepted _ => false

structure Request where
  domain : Domain
  values : Values
  force : Bool

def find_domain (domains : List Domain) (name : CString) : Option Domain :=
  domains.find? fun domain => domain.domain = name

def isTrue : Option CJson → Bool
  | some (.bool value) => value
  | _ => false

/-- The first part of `handle_set_config`; `none` is a payload that is NULL. -/
def parse_set_config (domains : List Domain) (payload : Option CJson) : Except String Request :=
  match payload with
  | some (.object fields) =>
    match fields.lookup (asciiBytes "domain"), fields.lookup (asciiBytes "values") with
    | some (.string name), some (.object values) =>
      match find_domain domains name with
      | none => .error "unknown config domain"
      | some domain =>
        .ok { domain, values, force := isTrue (fields.lookup (asciiBytes "force")) }
    | _, _ => .error "domain and values are required"
  | _ => .error "payload object is required"

/-- The required fields first, then the validation of the domain. -/
def check_request (request : Request) (store : Store) : Option EspErr × Store :=
  match validate_required_fields outcomes store request.domain request.values with
  | some err => (some err, store)
  | none => validate mqtt outcomes request.domain store request.values request.force

def handle_set_config (domains : List Domain) (payload : Option CJson) (store : Store) :
    Reply × Store :=
  match parse_set_config domains payload with
  | .error message => (.error message, store)
  | .ok request =>
    match check_request mqtt outcomes request store with
    | (some err, store) => (.rejected err, store)
    | (none, store) =>
      match persist_values outcomes request.domain.domain request.values request.domain.fields
        store with
      | (some err, store) => (.storeFailed err, store)
      | (none, store) => (.accepted request.domain.restart_required, store)

end Command

/-! ## What is stored before an answer -/

section Stores

variable (outcomes : Outcomes)

/-- The namespace in which a field is stored, if the call gets as far as storing it. -/
def storedIn (domain key : CString) : Option CString :=
  match build_namespace domain 16 with
  | .error _ => none
  | .ok namespace_name =>
    if (outcomes.sets key).opened.isNone && (outcomes.sets key).set.stores then
      some namespace_name
    else none

def setError (domain key : CString) : Option EspErr :=
  match build_namespace domain 16 with
  | .error err => some err
  | .ok _ =>
    (outcomes.sets key).opened <|> (outcomes.sets key).set.error <|> (outcomes.sets key).commit

theorem set_string_spec (store : Store) (domain key value : CString) :
    helix_config_set_string outcomes store domain key value =
      (setError outcomes domain key, match storedIn outcomes domain key with
        | some namespace_name => store.set namespace_name key value
        | none => store) := by
  unfold helix_config_set_string setError storedIn
  cases build_namespace domain 16 with
  | error err => rfl
  | ok namespace_name =>
    generalize outcomes.sets key = outcome
    obtain ⟨opened, set, commit⟩ := outcome
    cases opened with
    | some err => rfl
    | none =>
      cases set with
      | written => rfl
      | failed err => rfl
      | unfinished err => rfl

/-- The text that a request gives for a field. -/
def textOf (values : Values) (field : Field) : Option CString :=
  (values.lookup field.key).bind value_to_string

/-- The field does not end the loop. -/
def passes (domain : CString) (values : Values) (field : Field) : Bool :=
  (values.lookup field.key).isNone ||
    (textOf values field).isSome && (setError outcomes domain field.key).isNone

/-- The storage after a field that the loop has reached. -/
def storeField (store : Store) (domain : CString) (values : Values) (field : Field) : Store :=
  match textOf values field, storedIn outcomes domain field.key with
  | some text, some namespace_name => store.set namespace_name field.key text
  | _, _ => store

/-- If the field is reached, it is stored with the text that it has. -/
def Holds (store : Store) (domain : CString) (values : Values) (field : Field) : Prop :=
  ∀ text ∈ textOf values field, ∀ namespace_name ∈ storedIn outcomes domain field.key,
    store.config namespace_name field.key = some text

/-- All fields that are reached hold. -/
def FieldsHold (store : Store) (domain : CString) (values : Values) (fields : List Field) : Prop :=
  ∀ before field after, fields = before ++ field :: after →
    (∀ earlier ∈ before, passes outcomes domain values earlier) →
    Holds outcomes store domain values field

variable {outcomes}

variable {domain : CString} {field : Field}

theorem fieldsHold_cons {store : Store} {values : Values} {fields : List Field} :
    FieldsHold outcomes store domain values (field :: fields) ↔
      Holds outcomes store domain values field ∧
        (passes outcomes domain values field → FieldsHold outcomes store domain values fields) := by
  constructor
  · intro hold
    refine ⟨hold [] field fields rfl (fun _ member => nomatch member), ?_⟩
    intro through before other after split earlier
    refine hold (field :: before) other after (by rw [split]; rfl) fun one member => ?_
    obtain rfl | member := List.mem_cons.mp member
    · exact through
    · exact earlier one member
  · rintro ⟨head, rest⟩ before other after split earlier
    cases before with
    | nil =>
      cases split
      exact head
    | cons first before =>
      cases split
      exact rest (earlier field List.mem_cons_self) before other after rfl
        fun one member => earlier one (List.mem_cons_of_mem _ member)

theorem set_config_self (store : Store) (namespace_name key value : CString) :
    (store.set namespace_name key value).config namespace_name key = some value := by
  simp [Store.set]

variable {namespace_name : CString}

theorem set_same {store : Store} {key value : CString}
    (same : store.config namespace_name key = some value) :
    store.set namespace_name key value = store := by
  simp [Store.set, ← same]

/-- A field is only ever stored with the text of the request. -/
theorem set_keeps {store : Store} {values : Values} {other : Field} {text given : CString}
    {place : CString} (own : textOf values field = some text)
    (theirs : textOf values other = some given)
    (stored : store.config namespace_name field.key = some text) :
    (store.set place other.key given).config namespace_name field.key = some text := by
  by_cases sameKey : field.key = other.key
  · have sameText : given = text := by
      rw [textOf, sameKey] at own
      exact Option.some.inj (theirs.symm.trans own)
    by_cases samePlace : namespace_name = place
    · rw [samePlace, sameKey, set_config_self, sameText]
    · simpa [Store.set, samePlace] using stored
  by_cases samePlace : namespace_name = place
  · subst samePlace
    simpa [Store.set, sameKey] using stored
  · simpa [Store.set, samePlace] using stored

theorem storeField_keeps {store : Store} {values : Values}
    {other : Field} {text : CString} (own : textOf values field = some text)
    (stored : store.config namespace_name field.key = some text) :
    (storeField outcomes store domain values other).config namespace_name field.key =
      some text := by
  unfold storeField
  split
  next given _ => exact set_keeps own given stored
  · exact stored

theorem storeField_holds {store : Store} {values : Values}
    (holds : Holds outcomes store domain values field) :
    storeField outcomes store domain values field = store := by
  unfold storeField
  split
  next given placed => exact set_same (holds _ given _ placed)
  · rfl

/-- The loop stores a field and goes on, or ends with it. -/
theorem persist_values_cons (store : Store) (domain : CString) (values : Values) (field : Field)
    (fields : List Field) :
    (persist_values outcomes domain values (field :: fields) store).2 =
      if passes outcomes domain values field then
        (persist_values outcomes domain values fields
          (storeField outcomes store domain values field)).2
      else storeField outcomes store domain values field := by
  rw [persist_values]
  cases given : values.lookup field.key with
  | none => simp [passes, storeField, textOf, given]
  | some value =>
    cases written : value_to_string value with
    | none => simp [passes, storeField, textOf, given, written]
    | some text =>
      cases failed : setError outcomes domain field.key <;>
        cases placed : storedIn outcomes domain field.key <;>
        simp [passes, storeField, textOf, given, written, failed, placed, set_string_spec]

theorem persist_values_keeps {store : Store} {values : Values}
    {fields : List Field} {text : CString} (own : textOf values field = some text)
    (stored : store.config namespace_name field.key = some text) :
    (persist_values outcomes domain values fields store).2.config namespace_name field.key =
      some text := by
  induction fields generalizing store with
  | nil => exact stored
  | cons other fields ih =>
    rw [persist_values_cons]
    split
    · exact ih (storeField_keeps own stored)
    · exact storeField_keeps own stored

/-- The loop leaves the storage as it was just when all fields that it reaches hold. -/
theorem persist_values_kept {store : Store} {values : Values} {fields : List Field} :
    (persist_values outcomes domain values fields store).2 = store ↔
      FieldsHold outcomes store domain values fields := by
  induction fields with
  | nil =>
    refine ⟨fun _ before field after split => ?_, fun _ => rfl⟩
    simp at split
  | cons field fields ih =>
    rw [persist_values_cons, fieldsHold_cons]
    constructor
    · intro kept
      have holds : Holds outcomes store domain values field := by
        intro text given namespace_name placed
        have now : (storeField outcomes store domain values field).config namespace_name
            field.key = some text := by
          rw [storeField, given, placed]
          exact set_config_self _ _ _ _
        rw [← kept]
        split
        · exact persist_values_keeps given now
        · exact now
      refine ⟨holds, fun through => ?_⟩
      rw [if_pos through, storeField_holds holds] at kept
      exact ih.mp kept
    · rintro ⟨holds, rest⟩
      rw [storeField_holds holds]
      split
      next through => exact ih.mpr (rest through)
      · rfl

theorem persist_values_ok (outcomes : Outcomes) (store : Store) (domain : CString)
    (values : Values) (fields : List Field) :
    (persist_values outcomes domain values fields store).1 = none ↔
      ∀ field ∈ fields, passes outcomes domain values field := by
  induction fields generalizing store with
  | nil => simp [persist_values]
  | cons field fields ih =>
    rw [persist_values, List.forall_mem_cons]
    cases given : values.lookup field.key with
    | none => simp [passes, given, ih]
    | some value =>
      cases written : value_to_string value with
      | none => simp [passes, textOf, given, written]
      | some text =>
        cases failed : setError outcomes domain field.key <;>
          simp [passes, textOf, given, written, failed, set_string_spec, ih]

theorem persist_values_certs (store : Store) (domain : CString) (values : Values)
    (fields : List Field) :
    (persist_values outcomes domain values fields store).2.certs = store.certs := by
  induction fields generalizing store with
  | nil => rfl
  | cons field fields ih =>
    have same : (storeField outcomes store domain values field).certs = store.certs := by
      unfold storeField
      split <;> rfl
    rw [persist_values_cons]
    split
    · rw [ih, same]
    · exact same

end Stores

/-! ## What becomes of the bundle -/

section Bundles

/-- The keys that are stored before an error ends the enrollment. -/
def storedKeys (outcomes : CertOutcomes) : List NvsKey → List NvsKey
  | [] => []
  | key :: keys =>
    match outcomes.sets key with
    | .written => key :: storedKeys outcomes keys
    | .failed _ => []
    | .unfinished _ => [key]

/-- The text that is stored under a key, when the bundle cannot be loaded. -/
def enrolledText (outcomes : CertOutcomes) (certs : Certs) (key : NvsKey) : Option String :=
  if load_bundle_from_nvs outcomes certs then none
  else match outcomes.enrolled, outcomes.opened with
    | .ok bundle, none =>
      if key ∈ storedKeys outcomes NvsKey.order then some (bundle.get key) else none
    | _, _ => none

theorem set_keys_certs {outcomes : CertOutcomes} {bundle : Bundle} {keys : List NvsKey}
    {certs : Certs} (key : NvsKey) :
    (set_keys outcomes bundle keys certs).2 key =
      if key ∈ storedKeys outcomes keys then some (bundle.get key) else certs key := by
  induction keys generalizing certs with
  | nil => simp [set_keys, storedKeys]
  | cons first keys ih =>
    rw [set_keys, storedKeys]
    cases outcomes.sets first with
    | written =>
      simp only [WriteOutcome.stores, WriteOutcome.error, if_true, ih, List.mem_cons]
      by_cases same : key = first
      · subst same
        simp
      · simp [same]
    | failed err => simp [WriteOutcome.stores, WriteOutcome.error]
    | unfinished err =>
      by_cases same : key = first
      · subst same
        simp [WriteOutcome.stores, WriteOutcome.error]
      · simp [WriteOutcome.stores, WriteOutcome.error, same]

theorem load_or_enroll_certs (outcomes : CertOutcomes) (certs : Certs) (key : NvsKey) :
    (mqtt_cert_bundle_load_or_enroll outcomes certs).2 key =
      (enrolledText outcomes certs key <|> certs key) := by
  unfold mqtt_cert_bundle_load_or_enroll enrolledText enroll_certificate
  split
  · rfl
  · cases outcomes.enrolled with
    | error err => rfl
    | ok bundle =>
      unfold persist_bundle_to_nvs
      cases outcomes.opened with
      | some err => rfl
      | none =>
        simp only [set_keys_certs]
        split <;> rfl

/-- What is erased was empty or is stored again, and what is stored was there before. -/
def BundleKept (outcomes : CertOutcomes) (certs : Certs) : Prop :=
  ∀ key, match enrolledText outcomes (mqtt_cert_bundle_clear outcomes certs) key with
    | some text => certs key = some text
    | none => outcomes.erased key → certs key = none

theorem bundleKept_iff (outcomes : CertOutcomes) (certs : Certs) :
    (mqtt_cert_bundle_load_or_enroll outcomes (mqtt_cert_bundle_clear outcomes certs)).2 = certs ↔
      BundleKept outcomes certs := by
  rw [funext_iff]
  refine forall_congr' fun key => ?_
  rw [load_or_enroll_certs]
  cases enrolledText outcomes (mqtt_cert_bundle_clear outcomes certs) key with
  | some text => simp [eq_comm]
  | none =>
    unfold mqtt_cert_bundle_clear
    cases outcomes.erased key with
    | true => simp [eq_comm]
    | false => simp

end Bundles

/-! ## Requests that fail -/

section Requests

variable (mqtt : Bool) (outcomes : Outcomes)

/-- The request gets as far as clearing the bundle for a broker with TLS. -/
def enrolls (request : Request) (store : Store) : Bool :=
  (validate_required_fields outcomes store request.domain request.values).isNone &&
    match request.domain.validate with
    | some .validate_cloud_config =>
      !request.force && mqtt &&
        match overlay_cloud_config outcomes store request.values with
        | .ok candidate => cloud_config_uses_mqtt_tls candidate
        | .error _ => false
    | _ => false

/-- A check stores nothing but the bundle. -/
theorem check_request_store (request : Request) (store : Store) :
    (check_request mqtt outcomes request store).2 =
      if enrolls mqtt outcomes request store then
        { store with certs := (mqtt_cert_bundle_load_or_enroll outcomes.certs
            (mqtt_cert_bundle_clear outcomes.certs store.certs)).2 }
      else store := by
  unfold check_request enrolls validate
  cases validate_required_fields outcomes store request.domain request.values with
  | some err => rfl
  | none =>
    cases request.domain.validate with
    | none => rfl
    | some kind =>
      cases kind with
      | validate_wifi_config => rfl
      | validate_cloud_config =>
        unfold validate_cloud_config
        cases request.force with
        | true => rfl
        | false =>
          cases overlay_cloud_config outcomes store request.values with
          | error err => simp
          | ok candidate =>
            cases mqtt with
            | false => rfl
            | true =>
              cases secure : cloud_config_uses_mqtt_tls candidate with
              | false => simp [secure]
              | true =>
                simp only [secure]
                cases (mqtt_cert_bundle_load_or_enroll outcomes.certs
                  (mqtt_cert_bundle_clear outcomes.certs store.certs)).1 <;> simp

/-- The check or one of the fields ends the request. -/
def Fails (request : Request) (store : Store) : Prop :=
  (check_request mqtt outcomes request store).1 ≠ none ∨
    ∃ field ∈ request.domain.fields,
      ¬passes outcomes request.domain.domain request.values field

/-- What a request that fails has stored by then was stored before. -/
structure Harmless (request : Request) (store : Store) : Prop where
  bundle : enrolls mqtt outcomes request store → Fails mqtt outcomes request store →
    BundleKept outcomes.certs store.certs
  fields : (check_request mqtt outcomes request store).1 = none →
    Fails mqtt outcomes request store →
    FieldsHold outcomes store request.domain.domain request.values request.domain.fields

variable {outcomes} in
theorem fieldsHold_config {store other : Store} {domain : CString} {values : Values}
    {fields : List Field} (same : store.config = other.config) :
    FieldsHold outcomes store domain values fields ↔
      FieldsHold outcomes other domain values fields := by
  unfold FieldsHold Holds
  rw [same]

theorem check_kept (request : Request) (store : Store) :
    (check_request mqtt outcomes request store).2 = store ↔
      (enrolls mqtt outcomes request store → BundleKept outcomes.certs store.certs) := by
  rw [check_request_store]
  split
  next clears =>
    rw [← bundleKept_iff]
    constructor
    · intro same _
      exact congrArg Store.certs same
    · intro same
      rw [same clears]
  next spares => simp [spares]

theorem check_config (request : Request) (store : Store) :
    (check_request mqtt outcomes request store).2.config = store.config := by
  rw [check_request_store]
  split <;> rfl

/-- The fields are stored on the configuration that the check has left as it was. -/
theorem persisted_kept (request : Request) (store : Store) :
    (persist_values outcomes request.domain.domain request.values request.domain.fields
        (check_request mqtt outcomes request store).2).2 = store ↔
      (enrolls mqtt outcomes request store → BundleKept outcomes.certs store.certs) ∧
        FieldsHold outcomes store request.domain.domain request.values
          request.domain.fields := by
  rw [← check_kept, ← fieldsHold_config (check_config mqtt outcomes request store),
    ← persist_values_kept]
  constructor
  · intro same
    have certs : (check_request mqtt outcomes request store).2.certs = store.certs := by
      rw [← persist_values_certs, same]
    have checked : (check_request mqtt outcomes request store).2 = store :=
      Store.ext (check_config mqtt outcomes request store) certs
    exact ⟨checked, same.trans checked.symm⟩
  · rintro ⟨checked, fields⟩
    exact fields.trans checked

/-- The bundle and the configuration are as before a request that failed exactly when it was
harmless. -/
theorem set_config_kept (mqtt : Bool) (outcomes : Outcomes) (domains : List Domain)
    (payload : Option CJson) (store : Store) :
    ((handle_set_config mqtt outcomes domains payload store).1.failed →
        (handle_set_config mqtt outcomes domains payload store).2 = store) ↔
      ∀ request, parse_set_config domains payload = .ok request →
        Harmless mqtt outcomes request store := by
  unfold handle_set_config
  cases parsed : parse_set_config domains payload with
  | error message => simp [Reply.failed]
  | ok request =>
    simp only [Except.ok.injEq, forall_eq']
    have stored := persisted_kept mqtt outcomes request store
    have checked := check_kept mqtt outcomes request store
    have ended := persist_values_ok outcomes (check_request mqtt outcomes request store).2
      request.domain.domain request.values request.domain.fields
    rcases check : check_request mqtt outcomes request store with ⟨err, after⟩
    rw [check] at stored checked ended
    cases err with
    | some err =>
      have fails : Fails mqtt outcomes request store := .inl (by simp [check])
      simp only [Reply.failed, forall_const]
      rw [checked]
      constructor
      · intro bundle
        exact ⟨fun clears _ => bundle clears, fun through => by simp [check] at through⟩
      · exact fun harmless clears => harmless.bundle clears fails
    | none =>
      rcases loop : persist_values outcomes request.domain.domain request.values
        request.domain.fields after with ⟨err, final⟩
      rw [loop] at stored ended
      have failing : Fails mqtt outcomes request store ↔ err ≠ none := by
        simp [Fails, check, ended]
      cases err with
      | some err =>
        have fails := failing.mpr (by simp)
        simp only [loop, Reply.failed, forall_const]
        rw [stored]
        constructor
        · exact fun ⟨bundle, fields⟩ => ⟨fun clears _ => bundle clears, fun _ _ => fields⟩
        · exact fun harmless => ⟨fun clears => harmless.bundle clears fails,
            harmless.fields (by rw [check]) fails⟩
      | none =>
        have succeeds : ¬Fails mqtt outcomes request store := by simp [failing]
        simp only [loop, Reply.failed, Bool.false_eq_true, false_implies, true_iff]
        exact ⟨fun _ fails => absurd fails succeeds, fun _ fails => absurd fails succeeds⟩

end Requests

/-! ### A cloud that does not enroll, and a field that is not stored -/

def cloudDomain : Domain where
  domain := cloud
  fields := [⟨asciiBytes "deviceId", true⟩, ⟨asciiBytes "deviceToken", true⟩,
    ⟨asciiBytes "apiUrl", true⟩, ⟨asciiBytes "mqttHost", true⟩, ⟨asciiBytes "mqttPort", true⟩,
    ⟨asciiBytes "mqttTlsName", false⟩, ⟨asciiBytes "profileId", false⟩]
  restart_required := true
  validate := some .validate_cloud_config

def wifiDomain : Domain where
  domain := asciiBytes "wifi"
  fields := [⟨asciiBytes "ssid", true⟩, ⟨asciiBytes "password", true⟩]
  restart_required := true
  validate := some .validate_wifi_config

def enrolledStore : Store where
  certs _ := some "pem"

def text (value : String) : CJson := .string (asciiBytes value)

def cloudRequest : CJson :=
  .object [(asciiBytes "domain", text "cloud"), (asciiBytes "values", .object [
    (asciiBytes "deviceId", text "d"), (asciiBytes "deviceToken", text "t"),
    (asciiBytes "apiUrl", text "u"), (asciiBytes "mqttHost", text "h"),
    (asciiBytes "mqttPort", .number 8883), (asciiBytes "mqttTlsName", text "n")])]

def wifiRequest : CJson :=
  .object [(asciiBytes "domain", text "wifi"), (asciiBytes "values", .object [
    (asciiBytes "ssid", text "s"), (asciiBytes "password", text "p")])]

/-- The cloud cannot be reached. -/
def unreachable : Outcomes where
  certs := { enrolled := .error (.other 1) }

/-- The second field cannot be set. -/
def fullStorage : Outcomes where
  sets key := if key = asciiBytes "password" then { set := .failed (.other 2) } else {}
  certs := { enrolled := .error (.other 1) }

theorem set_config_not_kept :
    (∃ after, handle_set_config true unreachable [wifiDomain, cloudDomain] (some cloudRequest)
        enrolledStore = (.rejected (.other 1), after) ∧ after.certs .device_key = none ∧
      enrolledStore.certs .device_key = some "pem") ∧
    ∃ after, handle_set_config true fullStorage [wifiDomain, cloudDomain] (some wifiRequest)
        enrolledStore = (.storeFailed (.other 2), after) ∧
      after.config (asciiBytes "hx_wifi") (asciiBytes "ssid") = some (asciiBytes "s") ∧
      enrolledStore.config (asciiBytes "hx_wifi") (asciiBytes "ssid") = none := by
  refine ⟨⟨_, rfl, rfl, rfl⟩, ⟨_, rfl, ?_, rfl⟩⟩
  decide

end HelixKit.Esp32.Provisioning
