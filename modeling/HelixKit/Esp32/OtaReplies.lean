/-
Purpose: Who the statuses of an update go to, with commands arriving while its task is at work
  (`embedded/esp32/platform/src/helix_ota.c`, `embedded/protocol/src/helix_service_dispatcher.c`).
Trusted boundary: none
Main exports: routed_iff
-/
import HelixKit.Esp32.Ota

namespace HelixKit.Esp32.OtaReplies

open HelixKit.Runs
open HelixKit.Esp32.Ota (CString EspErr Message Invocation Request Command Payload Steps Device
  Event Trace parse_ota_request_payload)

/-! ### The dispatcher -/

/-- What is in an answer. -/
inductive Body where
  | status (state : String) (message : Message) (targetVersion sha256 : CString)
  | error (error : Message)
deriving Repr, DecidableEq

/-- An answer, as every response sink gets it. -/
structure Reply where
  service : String
  method : String
  payload : Body
  request_id : String
deriving Repr, DecidableEq

def service_dispatcher_respond (invocation : Invocation) (method : String) (payload : Body) :
    List Reply :=
  if invocation.response_enabled then
    [{ service := invocation.service, method, payload, request_id := invocation.request_id }]
  else []

def service_dispatcher_fail (invocation : Invocation) (error : Message) : List Reply :=
  service_dispatcher_respond invocation (invocation.service ++ "-error") (.error error)

/-! ### The handler -/

/-- What a command comes to: what is answered at once, the handler's own result, and the request
that a task is created for. -/
structure Handled where
  replies : List Reply := []
  result : Except EspErr Unit := .ok ()
  request : Option Request := none

def ota_service_handle_command (running : Bool) (invocation : Invocation) (command : Command) :
    Handled :=
  if command.method ≠ "ota-update" then
    { replies := service_dispatcher_fail invocation (.text "unsupported OTA command") }
  else
    match command.payload with
    | none => { result := .error .invalidArg }
    | some payload =>
      if command.provisioned = false then
        { replies := service_dispatcher_fail invocation (.text "device is not provisioned") }
      else if running then
        { replies := service_dispatcher_fail invocation (.text "OTA already running"),
          result := .error .invalidState }
      else if command.allocated = false then { result := .error .noMem }
      else
        -- the invocation is put into the request here, and the parser starts from zeros
        match parse_ota_request_payload payload with
        | .error err =>
          { replies := service_dispatcher_fail invocation (.errName err), result := .error err }
        | .ok request =>
          if command.created = false then { result := .error .noMem }
          else { request := some request }

/-- The requests that tasks are created for are those of the update service. -/
theorem handled_request (running : Bool) (invocation : Invocation) (command : Command) :
    (ota_service_handle_command running invocation command).request =
      (Ota.ota_service_handle_command running command).map Ota.Task.request := by
  unfold ota_service_handle_command Ota.ota_service_handle_command
  by_cases method : command.method = "ota-update"
  swap
  · rw [if_pos method, if_pos method]
    rfl
  rw [if_neg (not_not_intro method), if_neg (not_not_intro method)]
  cases command.payload with
  | none => rfl
  | some payload =>
    cases config : command.provisioned with
    | false => simp
    | true =>
    cases running with
    | true => simp
    | false =>
    cases memory : command.allocated with
    | false => simp
    | true =>
      simp only [Bool.true_eq_false, Bool.false_eq_true, or_self, if_false]
      split
      next err failed =>
        split
        next => rfl
        next request parsed => cases failed.symm.trans parsed
      next request parsed =>
        cases command.created with
        | false =>
          simp only [Bool.false_eq_true, if_true, if_false]
          split <;> rfl
        | true =>
          simp only [Bool.true_eq_false, if_true, if_false]
          split
          next err failed => cases parsed.symm.trans failed
          next again same =>
            cases parsed.symm.trans same
            rfl

/-! ### The task -/

/-- What the task does next. -/
inductive Stage where
  | accepted
  | address
  | download
deriving Repr, DecidableEq

/-- The next status of the task, and the stage after it; `result` is how the stage comes out. -/
def Stage.next (stage : Stage) (request : Request) (result : Except EspErr Unit) :
    String × Message × Option Stage :=
  match stage with
  | .accepted => ("accepted", .none, some .address)
  | .address =>
    match if request.source = .directUrl then .ok () else result with
    | .ok () => ("downloading", .none, some .download)
    | .error err => ("failed", .errName err, none)
  | .download =>
    match result with
    | .ok () => ("rebooting", .text "OTA applied successfully", none)
    | .error err => ("failed", .errName err, none)

/-- The statuses of a task, one for each result. -/
def taskStatuses (request : Request) : Option Stage → List (Except EspErr Unit) →
    List (String × Message)
  | some stage, result :: later =>
    let (state, message, after) := stage.next request result
    (state, message) :: taskStatuses request after later
  | _, _ => []

def eventStatus : Event → Option (String × Message)
  | .status state message _ _ _ => some (state, message)
  | .restart => none

variable {Partition : Type}

/-- The statuses of the task are those of the update service. -/
theorem task_statuses [DecidableEq Partition] (sha256 : Ota.Image → Ota.Digest)
    (request : Request) (steps : Steps) (device : Device Partition) :
    ∃ address download, taskStatuses request (some .accepted) [.ok (), address, download] =
      (Ota.ota_task sha256 request steps device).filterMap (eventStatus ·.1) := by
  cases address : Ota.downloadUrl request steps with
  | error err =>
    have signed : request.source ≠ .directUrl := by
      intro direct
      rw [Ota.downloadUrl, direct] at address
      cases address
    refine ⟨.error err, .ok (), ?_⟩
    simp [taskStatuses, Stage.next, signed, Ota.ota_task, address, Ota.finish, eventStatus,
      Ota.publish_ota_status]
  | ok url =>
    have found : ∀ later, taskStatuses request (some .address) (.ok () :: later) =
        ("downloading", .none) :: taskStatuses request (some .download) later := by
      intro later
      rw [taskStatuses, Stage.next, ite_self]
    have ending : ∀ (after : Device Partition) (result : Except EspErr Unit),
        taskStatuses request (some .download) [result] =
          (Ota.finish request after result).filterMap (eventStatus ·.1) := by
      intro after result
      cases result <;> rfl
    cases download : Ota.esp_https_ota steps device with
    | mk written result =>
      cases result with
      | error err =>
        refine ⟨.ok (), .error err, ?_⟩
        rw [taskStatuses, Stage.next]
        simp only [found, Ota.ota_task, address, download]
        rfl
      | ok done =>
        refine ⟨.ok (),
          (Ota.verify_boot_partition_sha256 sha256 request steps written).2, ?_⟩
        rw [taskStatuses, Stage.next]
        simp only [found, Ota.ota_task, address, download]
        exact congrArg (fun rest => ("accepted", .none) :: ("downloading", .none) :: rest)
          (ending _ _)

/-! ### The service -/

/-- An update at work: the invocation of the command that started it, what its task was given, and
how far it is. -/
structure Update where
  invocation : Invocation
  request : Request
  stage : Stage

/-- A status, with the command that started the update and what was sent. -/
structure Status where
  invocation : Invocation
  payload : Body
  sent : List Reply

structure Service where
  update : Option Update := none
  statuses : List Status := []
  /-- The answers to commands. -/
  answers : List Reply := []

def start : Service := {}

inductive Op where
  | command (invocation : Invocation) (command : Command)
  | work (result : Except EspErr Unit)

def publish_ota_status (state : String) (message : Message) (update : Update) : Status :=
  let payload := .status state message update.request.version update.request.sha256
  { invocation := update.invocation
    payload
    sent := service_dispatcher_respond update.request.invocation "ota-status" payload }

def Service.command (service : Service) (invocation : Invocation) (command : Command) : Service :=
  let handled := ota_service_handle_command service.update.isSome invocation command
  { service with
    update := match handled.request with
      | some request => some { invocation, request, stage := .accepted }
      | none => service.update
    answers := service.answers ++ handled.replies }

def Service.work (service : Service) (result : Except EspErr Unit) : Service :=
  match service.update with
  | none => service
  | some update =>
    let (state, message, after) := update.stage.next update.request result
    { service with
      update := after.map fun stage => { update with stage }
      statuses := service.statuses ++ [publish_ota_status state message update] }

def step (service : Service) : Op → Service
  | .command invocation command => service.command invocation command
  | .work result => service.work result

/-- The status is sent as the command that started the update is answered. -/
def Status.Routed (status : Status) : Prop :=
  status.sent = service_dispatcher_respond status.invocation "ota-status" status.payload

/-- The update that is at work was started by a command that is not to be answered. -/
def Unanswered (service : Service) : Op → Prop
  | .command _ _ => True
  | .work _ => ∀ update, service.update = some update → update.invocation.response_enabled = false

/-! ### Who is answered -/

/-- The task has an invocation of zeros, whoever started it. -/
def Cleared (service : Service) : Prop :=
  ∀ update, service.update = some update → update.request.invocation = {}

theorem handled_cleared {running : Bool} {invocation : Invocation} {command : Command}
    {request : Request}
    (handled : (ota_service_handle_command running invocation command).request = some request) :
    request.invocation = {} := by
  rw [handled_request] at handled
  obtain ⟨task, -, rfl⟩ := Option.map_eq_some_iff.mp handled
  obtain ⟨-, -, -, cleared⟩ := Ota.parse_kept task.parsed
  exact cleared

theorem cleared_step {service : Service} (op : Op) (cleared : Cleared service) :
    Cleared (step service op) := by
  intro update working
  cases op with
  | command invocation command =>
    simp only [step, Service.command] at working
    split at working
    next request handled =>
      cases working
      exact handled_cleared handled
    next => exact cleared update working
  | work result =>
    simp only [step, Service.work] at working
    split at working
    next => exact cleared update working
    next old before =>
      obtain ⟨stage, -, rfl⟩ := Option.map_eq_some_iff.mp working
      exact cleared old before

/-- With a cleared invocation nothing is sent. -/
theorem routed_iff_unanswered {update : Update} (cleared : update.request.invocation = {})
    (state : String) (message : Message) :
    (publish_ota_status state message update).Routed ↔
      update.invocation.response_enabled = false := by
  simp [publish_ota_status, Status.Routed, service_dispatcher_respond, cleared]

/-- What a step adds to the statuses is routed if the update was not to be answered. -/
theorem routed_step {service : Service} (cleared : Cleared service) (op : Op) :
    (∀ status ∈ (step service op).statuses, status.Routed) ↔
      (∀ status ∈ service.statuses, status.Routed) ∧ Unanswered service op := by
  cases op with
  | command => simp [step, Service.command, Unanswered]
  | work result =>
    simp only [step, Service.work, Unanswered]
    cases working : service.update with
    | none => simp
    | some update =>
      simp only [List.forall_mem_append, List.forall_mem_singleton, Option.some.injEq,
        forall_eq', routed_iff_unanswered (cleared update working)]

theorem routed_run {service : Service} (cleared : Cleared service) (ops : List Op) :
    (∀ status ∈ (run step service ops).statuses, status.Routed) ↔
      (∀ status ∈ service.statuses, status.Routed) ∧ Along step Unanswered service ops := by
  induction ops generalizing service with
  | nil => simp [Along]
  | cons op rest ih =>
    rw [run_cons, ih (cleared_step op cleared), routed_step cleared op, Along, and_assoc]

/-- Every status goes to who started the update exactly when no update was to be answered. -/
theorem routed_iff (ops : List Op) :
    (∀ status ∈ (run step start ops).statuses, status.Routed) ↔
      Along step Unanswered start ops := by
  have idle : Cleared start := fun _ working => nomatch working
  rw [routed_run idle]
  exact and_iff_right (List.forall_mem_nil _)

/-- A command with an address to download from. -/
def updateCommand : Command :=
  { method := "ota-update", payload := some (.object [("firmwareUrl", .string [104])]) }

/-- The first status of an accepted update is sent to nobody. -/
theorem status_lost :
    ((run step start [.command ⟨"ota", "r1", true⟩ updateCommand, .work (.ok ())]).statuses.map
      Status.sent) = [[]] ∧
    ¬ ∀ status ∈
      (run step start [.command ⟨"ota", "r1", true⟩ updateCommand, .work (.ok ())]).statuses,
      status.Routed := by
  refine ⟨rfl, fun routed => ?_⟩
  have idle : Cleared start := fun _ working => nomatch working
  have quiet := ((routed_run idle _).mp routed).2.2.1 _ rfl
  cases quiet

end HelixKit.Esp32.OtaReplies
