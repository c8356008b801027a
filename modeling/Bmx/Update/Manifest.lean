import Bmx.Update.Sha256

/-!
# The release manifest

The signed description of a release: who may install it, what the archive contains and what the
installer does with each file.
-/

namespace Bmx.Update

inductive BoardFamily
  | unknown | pi4Pi400 | pi5Pi500
  deriving DecidableEq

inductive ConfigArea
  | unknown | machines | configManagedBlock | cmdlineManagedKeys | network | settings | updateState
  deriving DecidableEq

inductive ManifestFilePolicy
  | kernel | managedReplace | configTemplate | preserve | metadata
  deriving DecidableEq

inductive ManifestCompression
  | store | deflate
  deriving DecidableEq

structure ManifestFile where
  path : Bytes
  size : Nat
  sha256 : Digest
  policy : ManifestFilePolicy
  compression : ManifestCompression
  deriving DecidableEq

structure ManifestReplacement where
  path : Bytes
  replacedBy : Bytes
  deriving DecidableEq

structure ManifestConfigSchema where
  area : ConfigArea
  targetVersion : Nat
  acceptedVersions : List Nat
  deriving DecidableEq

structure ManifestMigration where
  id : Bytes
  area : ConfigArea
  fromVersion : Nat
  toVersion : Nat
  lossy : Bool
  deriving DecidableEq

structure ManifestLossyChange where
  area : ConfigArea
  description : Bytes
  deriving DecidableEq

structure ManifestAsset where
  board : BoardFamily
  filename : Bytes
  downloadSize : Nat
  sha256 : Digest
  installedSize : Nat
  requiredPeakBytes : Nat
  files : List ManifestFile
  directories : List Bytes
  deletions : List Bytes
  replacements : List ManifestReplacement
  configurationResetRequired : Bool
  deriving DecidableEq

structure ReleaseManifest where
  manifestVersion : Nat
  version : Bytes
  tag : Bytes
  sourceCommit : Bytes
  releaseSequence : Nat
  releaseEpoch : Nat
  minimumUpdaterAbi : Nat
  maximumUpdaterAbi : Nat
  signingKeyIds : List Bytes
  schemas : List ManifestConfigSchema
  migrations : List ManifestMigration
  lossyChanges : List ManifestLossyChange
  asset : ManifestAsset

end Bmx.Update
