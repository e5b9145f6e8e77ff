/-
Purpose: The keys of the objects that the devices store, and when the areas of two devices are
  apart.
Trusted boundary: none
Main exports: device_areas_isolated_iff
-/
import HelixKit.Backend.JsValue
import HelixKit.Lib.Separator
import HelixKit.Lib.Trimming
import Mathlib.Data.Set.Basic

namespace HelixKit.Backend.StorageKeys

open HelixKit.Separator HelixKit.Trimming

/-! ### Source -/

def slash : UInt16 := 0x2F

/-- The white space and the line ends that `trim` takes off. -/
def isWhiteSpace (unit : UInt16) : Bool :=
  unit ∈ [0x09, 0x0A, 0x0B, 0x0C, 0x0D, 0x20, 0xA0, 0x1680, 0x2028, 0x2029, 0x202F, 0x205F,
    0x3000, 0xFEFF] || (0x2000 ≤ unit && unit ≤ 0x200A)

/-- `StoragePathError`, with the field it names. -/
structure StoragePathError where
  fieldName : String
deriving DecidableEq, Repr

def currentDirectory : JsString := js "."

def parentDirectory : JsString := js ".."

/-- A segment that no path may have. -/
def forbidden (segment : JsString) : Bool :=
  segment = [] || segment = currentDirectory || segment = parentDirectory

def normalizeStoragePathSegments (value : JsString) (fieldName : String) :
    Except StoragePathError (List JsString) :=
  let normalized := trimmed (· = slash) (trimmed isWhiteSpace value)
  if normalized = [] then .error ⟨fieldName⟩
  else
    let segments := normalized.splitOn slash
    if segments.any forbidden then .error ⟨fieldName⟩ else .ok segments

/-- A segment of a relative path, after those before it. -/
def enter (segments : List JsString) (segment : JsString) : List JsString :=
  if segment = [] ∨ segment = currentDirectory then segments
  else if segment = parentDirectory then
    match segments.getLast? with
    | some last => if last = parentDirectory then segments ++ [segment] else segments.dropLast
    | none => segments ++ [segment]
  else segments ++ [segment]

/-- `path.posix.normalize` of a path that is relative and does not end with a slash. -/
def posixNormalize (path : JsString) : JsString :=
  match (path.splitOn slash).foldl enter [] with
  | [] => currentDirectory
  | segments => [slash].intercalate segments

/-- `path.posix.join`. -/
def posixJoin (paths : List JsString) : JsString :=
  posixNormalize ([slash].intercalate (paths.filter (· ≠ [])))

def DEVICE_STORAGE_PREFIX : JsString := js "devices"

def joinDeviceStorageKey (deviceId objectPath : JsString) : Except StoragePathError JsString := do
  let device ← normalizeStoragePathSegments deviceId "deviceId"
  let object ← normalizeStoragePathSegments objectPath "path"
  return posixJoin (DEVICE_STORAGE_PREFIX :: device ++ object)

/-! ### Areas -/

/-- The keys that a device can name. -/
def deviceKeys (deviceId : JsString) : Set JsString :=
  { key | ∃ objectPath, joinDeviceStorageKey deviceId objectPath = .ok key }

/-- No key of the one device is a key of the other, and a device that has keys has one that the
other lacks. -/
structure Isolated (deviceId otherId : JsString) : Prop where
  distinct : ∀ objectPath otherPath key other, joinDeviceStorageKey deviceId objectPath = .ok key →
    joinDeviceStorageKey otherId otherPath = .ok other → key ≠ other
  notWithin : (deviceKeys deviceId).Nonempty → ¬ deviceKeys deviceId ⊆ deviceKeys otherId
  notAround : (deviceKeys otherId).Nonempty → ¬ deviceKeys otherId ⊆ deviceKeys deviceId

/-- Neither id begins with the segments of the other. -/
def Apart (deviceId otherId : JsString) : Prop :=
  ∀ device other, normalizeStoragePathSegments deviceId "deviceId" = .ok device →
    normalizeStoragePathSegments otherId "deviceId" = .ok other →
      ¬ device <+: other ∧ ¬ other <+: device

/-! ### Segments -/

/-- A segment that a path may have. -/
structure Clean (segment : JsString) : Prop where
  allowed : forbidden segment = false
  noSlash : slash ∉ segment

theorem Clean.ne_nil {segment : JsString} (clean : Clean segment) : segment ≠ [] := by
  rintro rfl
  cases clean.allowed

variable {segments : List JsString}

theorem normalize_clean {value : JsString} {fieldName : String}
    (accepted : normalizeStoragePathSegments value fieldName = .ok segments) :
    ∀ segment ∈ segments, Clean segment := by
  simp only [normalizeStoragePathSegments] at accepted
  split at accepted
  · cases accepted
  split at accepted
  · cases accepted
  next none_ =>
    cases accepted
    intro segment member
    refine ⟨?_, notMem_of_mem_splitOn member⟩
    simpa using List.any_eq_false.mp (Bool.eq_false_iff.mpr none_) segment member

theorem foldl_enter_clean (clean : ∀ segment ∈ segments, Clean segment) (before : List JsString) :
    segments.foldl enter before = before ++ segments := by
  induction segments generalizing before with
  | nil => simp
  | cons segment rest ih =>
    have allowed := (clean segment List.mem_cons_self).allowed
    simp only [forbidden, Bool.or_eq_false_iff, decide_eq_false_iff_not] at allowed
    have step : enter before segment = before ++ [segment] := by
      simp [enter, allowed.1.1, allowed.1.2, allowed.2]
    have later : ∀ other ∈ rest, Clean other := fun other member =>
      clean other (List.mem_cons_of_mem _ member)
    rw [List.foldl_cons, step, ih later, List.append_assoc, List.singleton_append]

theorem posixJoin_clean (clean : ∀ segment ∈ segments, Clean segment)
    (some_ : segments ≠ []) : posixJoin segments = [slash].intercalate segments := by
  have whole : segments.filter (fun path => decide (path ≠ [])) = segments :=
    List.filter_eq_self.mpr fun segment member => by simpa using (clean segment member).ne_nil
  have split_ := List.splitOn_intercalate slash
    (fun segment member => (clean segment member).noSlash) some_
  rw [posixJoin, whole, posixNormalize, split_, foldl_enter_clean clean, List.nil_append]
  cases segments with
  | nil => exact absurd rfl some_
  | cons _ _ => rfl

theorem keySegments_clean {deviceId objectPath : JsString} {device object : List JsString}
    (ids : normalizeStoragePathSegments deviceId "deviceId" = .ok device)
    (paths : normalizeStoragePathSegments objectPath "path" = .ok object) :
    ∀ segment ∈ DEVICE_STORAGE_PREFIX :: device ++ object, Clean segment := by
  intro segment member
  rcases List.mem_cons.mp member with rfl | later
  · exact ⟨by decide, by decide⟩
  · rcases List.mem_append.mp later with first | second
    · exact normalize_clean ids segment first
    · exact normalize_clean paths segment second

/-- The key of a device's object has the segments of both. -/
theorem joinDeviceStorageKey_eq_ok {deviceId objectPath key : JsString} :
    joinDeviceStorageKey deviceId objectPath = .ok key ↔
      ∃ device object, normalizeStoragePathSegments deviceId "deviceId" = .ok device ∧
        normalizeStoragePathSegments objectPath "path" = .ok object ∧
          key = [slash].intercalate (DEVICE_STORAGE_PREFIX :: device ++ object) := by
  rw [joinDeviceStorageKey]
  cases ids : normalizeStoragePathSegments deviceId "deviceId" with
  | error _ => simp [bind, Except.bind]
  | ok device =>
    cases paths : normalizeStoragePathSegments objectPath "path" with
    | error _ => simp [bind, Except.bind]
    | ok object =>
      have joined := posixJoin_clean (keySegments_clean ids paths) (by simp)
      rw [List.cons_append] at joined
      simp [bind, Except.bind, pure, Except.pure, joined, eq_comm]

/-- The segments of a key are read back. -/
theorem intercalate_inj {others : List JsString}
    (clean : ∀ segment ∈ segments, Clean segment) (cleanToo : ∀ segment ∈ others, Clean segment)
    (some_ : segments ≠ []) (someToo : others ≠ [])
    (same : [slash].intercalate segments = [slash].intercalate others) : segments = others := by
  have first := List.splitOn_intercalate slash
    (fun segment member => (clean segment member).noSlash) some_
  have second := List.splitOn_intercalate slash
    (fun segment member => (cleanToo segment member).noSlash) someToo
  rw [← first, same, second]

theorem head_intercalate (clean : ∀ segment ∈ segments, Clean segment) :
    ∀ unit ∈ ([slash].intercalate segments).head?, unit ≠ slash := by
  intro unit member same
  cases segments with
  | nil => cases member
  | cons first rest =>
    have own := clean first List.mem_cons_self
    have begins : ([slash].intercalate (first :: rest)).head? = first.head? := by
      cases rest with
      | nil => rw [List.intercalate_singleton]
      | cons second more =>
        rw [List.intercalate_cons_cons, List.append_assoc,
          List.head?_append_of_ne_nil _ own.ne_nil]
    rw [begins] at member
    exact own.noSlash (same ▸ List.mem_of_mem_head? member)

theorem getLast_intercalate (segments : List JsString) (text : JsString) (last : UInt16) :
    ([slash].intercalate (segments ++ [text ++ [last]])).getLast? = some last := by
  induction segments with
  | nil => rw [List.nil_append, List.intercalate_singleton, List.getLast?_concat]
  | cons segment rest ih =>
    rw [List.cons_append, List.intercalate_cons_of_ne_nil (by simp), List.getLast?_append, ih,
      Option.some_or]

/-- Clean segments are a path's, with a slash before them, if the path does not end in white
space. -/
theorem normalize_slash {last : UInt16} {text : JsString}
    (clean : ∀ segment ∈ segments ++ [text ++ [last]], Clean segment)
    (shown : isWhiteSpace last = false) (fieldName : String) :
    normalizeStoragePathSegments (slash :: [slash].intercalate (segments ++ [text ++ [last]]))
      fieldName = .ok (segments ++ [text ++ [last]]) := by
  have ends := getLast_intercalate segments text last
  have final := clean (text ++ [last]) (by simp)
  have other : last ≠ slash := fun same => final.noSlash (by simp [same])
  have filled : [slash].intercalate (segments ++ [text ++ [last]]) ≠ [] := by
    intro empty
    rw [empty] at ends
    cases ends
  have outer : trimmed isWhiteSpace (slash :: [slash].intercalate (segments ++ [text ++ [last]])) =
      slash :: [slash].intercalate (segments ++ [text ++ [last]]) := by
    refine trimmed_of_ends (by simp; decide) ?_
    rw [List.getLast?_cons_of_ne_nil filled, ends]
    simpa using shown
  have inner : trimmed (fun unit => decide (unit = slash))
      (slash :: [slash].intercalate (segments ++ [text ++ [last]])) =
        [slash].intercalate (segments ++ [text ++ [last]]) := by
    rw [trimmed_cons (by simp)]
    refine trimmed_of_ends ?_ ?_
    · exact fun unit member => decide_eq_false (head_intercalate clean unit member)
    · rw [ends]
      simpa using other
  have allowed : (segments ++ [text ++ [last]]).any forbidden = false :=
    List.any_eq_false.mpr fun segment member => by simp [(clean segment member).allowed]
  simp only [normalizeStoragePathSegments, outer, inner, filled, if_false,
    List.splitOn_intercalate slash (fun segment member => (clean segment member).noSlash)
      (List.append_ne_nil_of_right_ne_nil _ (List.cons_ne_nil _ _)), allowed, Bool.false_eq_true]

/-! ### Areas of two devices -/

/-- Every list of clean segments goes on to a path of its own. -/
theorem exists_path (clean : ∀ segment ∈ segments, Clean segment) :
    ∃ objectPath, normalizeStoragePathSegments objectPath "path" = .ok (segments ++ [js "x"]) := by
  have ends : js "x" = [] ++ [0x78] := rfl
  rw [ends]
  refine ⟨_, normalize_slash (fun segment member => ?_) (by decide) _⟩
  rcases List.mem_append.mp member with earlier | one
  · exact clean segment earlier
  · rw [List.mem_singleton.mp one]
    exact ⟨by decide, by decide⟩

/-- Ids one of which begins with the other name a common object. -/
theorem shared_key {deviceId otherId : JsString} {device other : List JsString}
    (ids : normalizeStoragePathSegments deviceId "deviceId" = .ok device)
    (others : normalizeStoragePathSegments otherId "deviceId" = .ok other)
    (begins : device <+: other) :
    ∃ objectPath otherPath key, joinDeviceStorageKey deviceId objectPath = .ok key ∧
      joinDeviceStorageKey otherId otherPath = .ok key := by
  obtain ⟨more, rfl⟩ := begins
  have clean : ∀ segment ∈ more, Clean segment := fun segment member =>
    normalize_clean others segment (List.mem_append_right _ member)
  obtain ⟨objectPath, paths⟩ := exists_path clean
  obtain ⟨otherPath, shorter⟩ :=
    exists_path fun segment member => absurd member List.not_mem_nil
  refine ⟨objectPath, otherPath, _, joinDeviceStorageKey_eq_ok.mpr ⟨_, _, ids, paths, rfl⟩,
    joinDeviceStorageKey_eq_ok.mpr ⟨_, _, others, shorter, ?_⟩⟩
  simp

/-- Two devices cannot name the same object exactly when neither id begins with the segments of the
other. -/
theorem device_areas_isolated_iff (deviceId otherId : JsString) :
    Isolated deviceId otherId ↔ Apart deviceId otherId := by
  constructor
  · intro isolated device other ids others
    constructor
    · intro begins
      obtain ⟨_, _, key, first, second⟩ := shared_key ids others begins
      exact isolated.distinct _ _ key key first second rfl
    · intro begins
      obtain ⟨_, _, key, second, first⟩ := shared_key others ids begins
      exact isolated.distinct _ _ key key first second rfl
  · intro apart
    have distinct : ∀ objectPath otherPath key other,
        joinDeviceStorageKey deviceId objectPath = .ok key →
          joinDeviceStorageKey otherId otherPath = .ok other → key ≠ other := by
      intro objectPath otherPath key other first second same
      obtain ⟨device, object, ids, paths, rfl⟩ := joinDeviceStorageKey_eq_ok.mp first
      obtain ⟨device', object', ids', paths', rfl⟩ := joinDeviceStorageKey_eq_ok.mp second
      have segments := intercalate_inj (keySegments_clean ids paths) (keySegments_clean ids' paths')
        (by simp) (by simp) same
      have within : device ++ object = device' ++ object' := by simpa using segments
      obtain ⟨left, right⟩ := apart device device' ids ids'
      rcases List.prefix_or_prefix_of_prefix ⟨object, within⟩ ⟨object', rfl⟩ with begins | begins
      · exact left begins
      · exact right begins
    refine ⟨distinct, ?_, ?_⟩
    · rintro ⟨key, objectPath, accepted⟩ within
      obtain ⟨otherPath, also⟩ := within ⟨objectPath, accepted⟩
      exact distinct _ _ key key accepted also rfl
    · rintro ⟨key, otherPath, accepted⟩ within
      obtain ⟨objectPath, also⟩ := within ⟨otherPath, accepted⟩
      exact distinct _ _ key key also accepted rfl

/-- The device `a/b` stores its object `c` where the device `a` stores its object `b/c`. -/
theorem nested_ids_share : ¬ Isolated (js "a") (js "a/b") := by
  intro isolated
  exact isolated.distinct (js "b/c") (js "c") (js "devices/a/b/c") (js "devices/a/b/c")
    (by decide) (by decide) rfl

end HelixKit.Backend.StorageKeys
