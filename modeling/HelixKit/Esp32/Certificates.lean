/-
Purpose: The MQTT certificate bundle in the non-volatile storage: loading it, enrolling
  for a new one and clearing it, with power losses and failures at any point.
Trusted boundary: none
Main exports: bundles_whole
-/
import HelixKit.Lib.Runs
import Mathlib.Logic.Function.Basic

namespace HelixKit.Esp32.Certificates

open HelixKit.Runs

/-! ### The bundle -/

/-- The keys of the namespace "helix_certs". -/
inductive NvsKey where
  | device_key
  | device_crt
  | root_ca
deriving Repr, DecidableEq

structure Bundle where
  private_key_pem : String
  certificate_pem : String
  root_ca_pem : String
deriving Repr, DecidableEq

def Bundle.get (bundle : Bundle) : NvsKey → String
  | .device_key => bundle.private_key_pem
  | .device_crt => bundle.certificate_pem
  | .root_ca => bundle.root_ca_pem

/-- The order in which the keys are read, and in which they are written. -/
def NvsKey.order : List NvsKey := [.device_key, .device_crt, .root_ca]

/-- Where `mqtt_cert_bundle_load_or_enroll` is, if it is running. -/
inductive Task where
  | idle
  | loading (read : NvsKey → Option String) (left : List NvsKey)
  | enrolling
  | persisting (bundle : Bundle) (left : List NvsKey)

/-- The storage and the task, with the bundles that enrollments gave and those that
were returned. -/
structure Device where
  nvs : NvsKey → Option String := fun _ => none
  task : Task := .idle
  enrolled : List Bundle := []
  returned : List Bundle := []

/-- What happens, each as one atomic step. -/
inductive Op where
  /-- The bundle is asked for; the namespace may fail to open. -/
  | load_or_enroll (opens : Bool)
  /-- The next key is read; the read or the allocation may fail. -/
  | read_nvs_string (ok : Bool)
  /-- Key, request and response; `none` is any failure. -/
  | enroll_certificate (bundle : Option Bundle) (opens : Bool)
  | nvs_set_str (ok : Bool)
  | nvs_commit (ok : Bool)
  /-- A step of `mqtt_cert_bundle_clear`, which may run at any time. -/
  | nvs_erase (key : NvsKey)
  | powerLoss
deriving Repr, DecidableEq

def Device.stop (device : Device) : Device :=
  { device with task := .idle }

def Device.finish (device : Device) (bundle : Bundle) : Device :=
  { device with task := .idle, returned := device.returned ++ [bundle] }

/-- A bundle of what was read. -/
def bundleOf (read : NvsKey → Option String) : Bundle where
  private_key_pem := (read .device_key).getD ""
  certificate_pem := (read .device_crt).getD ""
  root_ca_pem := (read .root_ca).getD ""

/-- A step that cannot be taken changes nothing. -/
def step (device : Device) : Op → Device
  | .load_or_enroll opens =>
    match device.task with
    | .idle =>
      { device with task := if opens then .loading (fun _ => none) NvsKey.order else .enrolling }
    | _ => device
  | .read_nvs_string ok =>
    match device.task with
    | .loading read (key :: left) =>
      match ok, device.nvs key with
      | true, some value =>
        let read := Function.update read key (some value)
        if left = [] then device.finish (bundleOf read)
        else { device with task := .loading read left }
      | _, _ => { device with task := .enrolling }
    | _ => device
  | .enroll_certificate bundle opens =>
    match device.task, bundle with
    | .enrolling, some bundle =>
      { device with
        enrolled := device.enrolled ++ [bundle]
        task := if opens then .persisting bundle NvsKey.order else .idle }
    | .enrolling, none => device.stop
    | _, _ => device
  | .nvs_set_str ok =>
    match device.task with
    | .persisting bundle (key :: left) =>
      if ok then
        { device with
          nvs := Function.update device.nvs key (some (bundle.get key))
          task := .persisting bundle left }
      else device.stop
    | _ => device
  | .nvs_commit ok =>
    match device.task with
    | .persisting bundle [] => if ok then device.finish bundle else device.stop
    | _ => device
  | .nvs_erase key => { device with nvs := Function.update device.nvs key none }
  | .powerLoss => device.stop

/-- The writes of a bundle end between the first and the last, with all keys stored. -/
def Torn (device : Device) (op : Op) : Prop :=
  (op = .powerLoss ∨ op = .nvs_set_str false) ∧ (∀ key, device.nvs key ≠ none) ∧
    ∃ bundle left, device.task = .persisting bundle left ∧ left ≠ [] ∧ left ≠ NvsKey.order

/-- Every bundle that was returned is that of one enrollment. -/
def Unmixed (device : Device) : Prop :=
  ∀ bundle ∈ device.returned, bundle ∈ device.enrolled

/-! ### The invariant -/

/-- If the keys have values together, these are a bundle of one enrollment. -/
def Whole (enrolled : List Bundle) (value : NvsKey → Option String) : Prop :=
  ∀ bundle : Bundle, (∀ key, value key = some (bundle.get key)) → bundle ∈ enrolled

/-- What is being loaded, with what is still stored of the keys that are left. -/
def ahead (device : Device) (read : NvsKey → Option String) (left : List NvsKey) (key : NvsKey) :
    Option String :=
  if key ∈ left then device.nvs key else read key

def TaskOk (device : Device) : Prop :=
  match device.task with
  | .idle | .enrolling => Whole device.enrolled device.nvs
  | .loading read left =>
    Whole device.enrolled device.nvs ∧ Whole device.enrolled (ahead device read left) ∧
      left.Nodup ∧ ∀ key, key ∉ left → read key ≠ none
  | .persisting bundle left =>
    bundle ∈ device.enrolled ∧
      (∀ key, key ∉ left → device.nvs key = none ∨ device.nvs key = some (bundle.get key)) ∧
      (left = NvsKey.order → Whole device.enrolled device.nvs) ∧
      left.length ≤ NvsKey.order.length

structure Inv (device : Device) : Prop where
  task : TaskOk device
  unmixed : Unmixed device

theorem inv_start : Inv {} where
  task := by
    intro bundle stored
    cases stored .device_key
  unmixed := by
    intro bundle returned
    cases returned

theorem Whole.of_missing {enrolled : List Bundle} {value : NvsKey → Option String} {key : NvsKey}
    (missing : value key = none) : Whole enrolled value := by
  intro bundle stored
  rw [stored key] at missing
  cases missing

theorem Whole.erase {enrolled : List Bundle} {value : NvsKey → Option String}
    (key : NvsKey) : Whole enrolled (Function.update value key none) :=
  Whole.of_missing (Function.update_self key none value)

theorem Whole.more {enrolled more : List Bundle} {value : NvsKey → Option String}
    (whole : Whole enrolled value) : Whole (enrolled ++ more) value :=
  fun bundle stored => List.mem_append_left more (whole bundle stored)

/-- Values that are all of one bundle. -/
theorem Whole.of_bundle {enrolled : List Bundle} {value : NvsKey → Option String} {bundle : Bundle}
    (known : bundle ∈ enrolled) (own : ∀ key, value key = none ∨ value key = some (bundle.get key)) :
    Whole enrolled value := by
  intro other stored
  have same : ∀ key, other.get key = bundle.get key := by
    intro key
    rcases own key with none | some
    · rw [stored key] at none
      cases none
    · rw [stored key] at some
      exact Option.some.inj some
  have equal : other = bundle := by
    obtain ⟨key, certificate, ca⟩ := other
    obtain ⟨key', certificate', ca'⟩ := bundle
    have first : key = key' := same .device_key
    have second : certificate = certificate' := same .device_crt
    have third : ca = ca' := same .root_ca
    rw [first, second, third]
  exact equal ▸ known

variable {device : Device}

/-- Whatever the task is at, unless it is writing: what is stored is whole. -/
theorem Inv.whole (inv : Inv device)
    (between : ∀ bundle left, device.task = .persisting bundle left →
      left = [] ∨ left = NvsKey.order ∨ ∃ key, device.nvs key = none) :
    Whole device.enrolled device.nvs := by
  have task := inv.task
  unfold TaskOk at task
  cases running : device.task with
  | idle => simpa [running] using task
  | enrolling => simpa [running] using task
  | loading read left =>
    simp only [running] at task
    exact task.1
  | persisting bundle left =>
    simp only [running] at task
    obtain ⟨known, own, start, -⟩ := task
    rcases between bundle left running with rfl | all | ⟨key, none⟩
    · exact Whole.of_bundle known fun key => own key List.not_mem_nil
    · exact start all
    · exact Whole.of_missing none

theorem Inv.whole_of_ne (inv : Inv device)
    (other : ∀ bundle left, device.task ≠ .persisting bundle left) :
    Whole device.enrolled device.nvs :=
  inv.whole fun bundle left running => absurd running (other bundle left)

theorem Inv.stop (inv : Inv device) (whole : Whole device.enrolled device.nvs) : Inv device.stop :=
  ⟨whole, inv.unmixed⟩

/-- A task that ends for want of power or of a write leaves what is stored whole. -/
theorem Inv.torn (inv : Inv device) {op : Op}
    (ends : op = .powerLoss ∨ op = .nvs_set_str false) (kept : ¬ Torn device op) :
    Inv device.stop := by
  apply inv.stop
  apply inv.whole
  intro bundle left running
  by_contra bad
  push Not at bad
  exact kept ⟨ends, bad.2.2, bundle, left, running, bad.1, bad.2.1⟩

theorem Inv.load (inv : Inv device) (opens : Bool) :
    Inv (step device (.load_or_enroll opens)) := by
  unfold step
  dsimp only
  split
  next idle =>
    have whole := inv.whole_of_ne (by simp [idle])
    refine ⟨?_, inv.unmixed⟩
    cases opens with
    | false => exact whole
    | true =>
      refine ⟨whole, ?_, by decide, fun key absent => absurd (by cases key <;> decide) absent⟩
      intro bundle stored
      apply whole bundle
      intro key
      have stored := stored key
      cases key <;> simpa [ahead, NvsKey.order] using stored
  · exact inv

/-- A key that is read keeps its value. -/
theorem ahead_read {read : NvsKey → Option String} {key : NvsKey}
    {left : List NvsKey} (nodup : (key :: left).Nodup) {value : String}
    (stored : device.nvs key = some value) :
    ahead device (Function.update read key (some value)) left = ahead device read (key :: left) := by
  have apart : key ∉ left := (List.nodup_cons.mp nodup).1
  funext other
  by_cases same : other = key
  · subst same
    simp [ahead, apart, stored]
  · simp [ahead, same]

theorem get_bundleOf {read : NvsKey → Option String} (all : ∀ key, read key ≠ none) (key : NvsKey) :
    read key = some ((bundleOf read).get key) := by
  obtain ⟨value, found⟩ := Option.ne_none_iff_exists'.mp (all key)
  cases key <;> simp [bundleOf, Bundle.get, found]

theorem Inv.read {device : Device} (inv : Inv device) (ok : Bool) :
    Inv (step device (.read_nvs_string ok)) := by
  unfold step
  dsimp only
  split
  next read key left loading =>
    have task := inv.task
    unfold TaskOk at task
    simp only [loading] at task
    obtain ⟨whole, onward, nodup, taken⟩ := task
    split
    next value stored =>
      have later : ahead device (Function.update read key (some value)) left =
          ahead device read (key :: left) := ahead_read nodup stored
      have got : ∀ other, other ∉ left → Function.update read key (some value) other ≠ none := by
        intro other unread
        by_cases same : other = key
        · subst same
          simp
        · rw [Function.update_of_ne same]
          exact taken other (by simp [same, unread])
      split
      next last =>
        subst last
        refine ⟨whole, ?_⟩
        intro bundle returned
        rcases List.mem_append.mp returned with old | new
        · exact inv.unmixed bundle old
        · rw [List.mem_singleton.mp new]
          apply onward
          intro other
          rw [← later]
          simpa [ahead] using get_bundleOf (fun key => got key List.not_mem_nil) other
      · exact ⟨⟨whole, later ▸ onward, (List.nodup_cons.mp nodup).2, got⟩, inv.unmixed⟩
    · exact ⟨whole, inv.unmixed⟩
  · exact inv

theorem Inv.enroll (inv : Inv device) (bundle : Option Bundle) (opens : Bool) :
    Inv (step device (.enroll_certificate bundle opens)) := by
  unfold step
  dsimp only
  split
  next bundle enrolling =>
    have whole := inv.whole_of_ne (by simp [enrolling])
    refine ⟨?_, fun other returned => List.mem_append_left [bundle] (inv.unmixed other returned)⟩
    cases opens with
    | false => exact whole.more
    | true =>
      have all : ∀ key, key ∈ NvsKey.order := by
        intro key
        cases key <;> decide
      exact ⟨by simp, fun key absent => absurd (all key) absent, fun _ => whole.more, Nat.le_refl _⟩
  next enrolling => exact inv.stop (inv.whole_of_ne (by simp [enrolling]))
  · exact inv

/-- A key that is written has the value of the bundle. -/
theorem Inv.write {device : Device} (inv : Inv device) : Inv (step device (.nvs_set_str true)) := by
  unfold step
  simp only [if_true]
  split
  next bundle key left persisting =>
    have task := inv.task
    unfold TaskOk at task
    simp only [persisting] at task
    obtain ⟨known, own, -, short⟩ := task
    simp only [List.length_cons] at short
    refine ⟨⟨known, ?_, ?_, Nat.le_of_succ_le short⟩, inv.unmixed⟩
    · intro other written
      by_cases same : other = key
      · subst same
        simp
      · simp only [Function.update_of_ne same]
        exact own other (by simp [same, written])
    · intro all
      rw [all] at short
      omega
  · exact inv

theorem Inv.commit (inv : Inv device) (ok : Bool) :
    Inv (step device (.nvs_commit ok)) := by
  unfold step
  dsimp only
  split
  next bundle persisting =>
    have whole : Whole device.enrolled device.nvs := by
      apply inv.whole
      intro bundle left running
      rw [persisting] at running
      cases running
      exact .inl rfl
    have task := inv.task
    unfold TaskOk at task
    simp only [persisting] at task
    cases ok with
    | false => exact inv.stop whole
    | true =>
      refine ⟨whole, ?_⟩
      intro other returned
      rcases List.mem_append.mp returned with old | new
      · exact inv.unmixed other old
      · rw [List.mem_singleton.mp new]
        exact task.1
  · exact inv

/-- An erased key takes nothing with it. -/
theorem Inv.erase (inv : Inv device) (key : NvsKey) :
    Inv (step device (.nvs_erase key)) := by
  refine ⟨?_, inv.unmixed⟩
  have task := inv.task
  unfold TaskOk at task ⊢
  unfold step
  dsimp only
  cases running : device.task with
  | idle => exact Whole.erase key
  | enrolling => exact Whole.erase key
  | loading read left =>
    simp only [running] at task
    obtain ⟨-, onward, rest⟩ := task
    refine ⟨Whole.erase key, ?_, rest⟩
    intro bundle values
    apply onward bundle
    intro other
    have given := values other
    by_cases same : other = key
    · subst same
      by_cases unread : other ∈ left
      · simp [ahead, unread] at given
      · simpa [ahead, unread] using given
    · simpa [ahead, Function.update_of_ne same] using given
  | persisting bundle left =>
    simp only [running] at task
    obtain ⟨known, own, -, short⟩ := task
    refine ⟨known, fun other written => ?_, fun _ => Whole.erase key, short⟩
    by_cases same : other = key
    · subst same
      simp
    · simpa [Function.update_of_ne same] using own other written

theorem Inv.step {device : Device} (inv : Inv device) {op : Op} (kept : ¬ Torn device op) :
    Inv (step device op) := by
  cases op with
  | load_or_enroll opens => exact inv.load opens
  | read_nvs_string ok => exact inv.read ok
  | enroll_certificate bundle opens => exact inv.enroll bundle opens
  | nvs_commit ok => exact inv.commit ok
  | nvs_erase key => exact inv.erase key
  | powerLoss => exact inv.torn (.inl rfl) kept
  | nvs_set_str ok =>
    cases ok with
    | true => exact inv.write
    | false =>
      simp only [Certificates.step]
      split
      · exact inv.torn (.inr rfl) kept
      · exact inv

/-! ### Runs -/

/-- If no writing of a bundle ends between its first and its last write with all keys
stored, every bundle that is returned is that of one enrollment. -/
theorem bundles_whole (ops : List Op)
    (along : Along Certificates.step (fun device op => ¬ Torn device op) {} ops) :
    Unmixed (run Certificates.step {} ops) :=
  (along.invariant Inv (fun _ _ inv kept => inv.step kept) inv_start).unmixed

/-- Only a power loss or a write that fails can tear. -/
theorem not_torn {op : Op} (goesOn : op ≠ .powerLoss)
    (writes : op ≠ .nvs_set_str false) : ¬ Torn device op := by
  rintro ⟨ends, -⟩
  exact ends.elim goesOn writes

def firstBundle : Bundle := ⟨"key 1", "certificate 1", "ca 1"⟩

def secondBundle : Bundle := ⟨"key 2", "certificate 2", "ca 2"⟩

/-- A load that fails at its first key, and an enrollment that gets as far as writing. -/
def enrolls (bundle : Bundle) : List Op :=
  [.load_or_enroll true, .read_nvs_string false, .enroll_certificate (some bundle) true]

def loads : List Op :=
  [.load_or_enroll true, .read_nvs_string true, .read_nvs_string true, .read_nvs_string true]

def stores : List Op :=
  [.nvs_set_str true, .nvs_set_str true, .nvs_set_str true, .nvs_commit true]

/-- The first enrollment is cut off after its first write, the second is stored. -/
theorem bundles_whole_second :
    (run step {} (enrolls firstBundle ++ [.nvs_set_str true] ++
      (.powerLoss :: (enrolls secondBundle ++ stores ++ loads)))).returned =
        [secondBundle, secondBundle] ∧
    Unmixed (run step {} (enrolls firstBundle ++ [.nvs_set_str true] ++
      (.powerLoss :: (enrolls secondBundle ++ stores ++ loads)))) := by
  refine ⟨by decide, bundles_whole _ (along_append.mpr ⟨?_, ?_, ?_⟩)⟩
  · exact Along.of_forall fun op member _ =>
      not_torn (by rintro rfl; revert member; decide) (by rintro rfl; revert member; decide)
  · intro torn
    exact torn.2.1 .root_ca (by decide)
  · exact Along.of_forall fun op member _ =>
      not_torn (by rintro rfl; revert member; decide) (by rintro rfl; revert member; decide)

/-- A load that fails leads to an enrollment over the stored bundle, and a power loss
after its first write leaves the new key with the old certificate. -/
theorem torn_bundle_returned : ∃ ops, ¬ Unmixed (run step {} ops) := by
  refine ⟨enrolls firstBundle ++ stores ++ enrolls secondBundle ++
    [.nvs_set_str true, .powerLoss] ++ loads, ?_⟩
  intro unmixed
  have mixed := unmixed ⟨"key 2", "certificate 1", "ca 1"⟩ (by decide)
  exact absurd mixed (by decide)

end HelixKit.Esp32.Certificates
