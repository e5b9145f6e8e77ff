/-
Purpose: The rows of the releases database.
Trusted boundary: none
-/
import Mathlib.Data.List.Basic

namespace HelixKit.Backend.ReleaseSchema

inductive StorageMode where
  | blob
  | ref
deriving Repr, DecidableEq

structure Artifact where
  id : String
  typeKey : String
  storageMode : StorageMode
  sha256 : Option String
  sizeBytes : Option Nat
  storageKey : Option String
  registry : Option String
  coordinate : Option String
  refVersion : Option String
  digest : Option String
deriving Repr, DecidableEq

structure Release where
  id : String
  typeKey : String
  name : String
  version : String
  channel : String
  status : String
deriving Repr, DecidableEq

structure Variant (Selector Manifest : Type) where
  id : String
  releaseId : String
  selector : Selector
  selectorHash : String
  name : Option String
  manifest : Option Manifest
  status : String
  createdAt : Nat
deriving Repr, DecidableEq

structure VariantArtifact where
  id : String
  variantId : String
  artifactId : String
  role : String
  offset : Option String
  path : Option String
deriving Repr, DecidableEq

structure ReleaseChannelHead where
  id : String
  typeKey : String
  name : String
  channel : String
  releaseId : String
deriving Repr, DecidableEq

structure ProfileTrack (Selector : Type) where
  id : String
  profileId : String
  typeKey : String
  releaseName : String
  channel : Option String
  pinnedReleaseId : Option String
  selector : Option Selector
deriving Repr, DecidableEq

structure DeviceProfile where
  deviceId : String
  profileId : String
deriving Repr, DecidableEq

end HelixKit.Backend.ReleaseSchema
