import Bmx.Zip.Open

/-!
# The expected inventory

A signed manifest says which files and directories an archive must contain. The reader compares
that list with its own inventory, and remembers a digest of the pair once the contents behind it
have been vouched for.
-/

namespace Bmx.Zip

open Interaction Update Fallible

def findExpectedFile (expected : ZipExpectedInventory) (path : Bytes) : Option ZipExpectedFile :=
  expected.files.find? (·.path == path)

/-- The loop of `ExtractOne` and of `VerifyExpectedInventory` for a file of the archive. -/
def ZipInventory.findFile (inventory : ZipInventory) (path : Bytes) : Option ZipEntry :=
  inventory.entries.find? fun entry => !entry.isDirectory && entry.path == path

/-! ### The binding -/

def hashU64 (hash : Sha256) (value : Nat) : Option Sha256 :=
  hash.update ((List.range 8).map fun index => UInt8.ofNat (value >>> (index * 8)))

def hashSizedBytes (hash : Sha256) (bytes : Bytes) : Option Sha256 :=
  (hashU64 hash bytes.length).bind (·.update bytes)

def inventoryDomain : Bytes := ascii "bmx-zip-validated-inventory-v1"

def hashEntry (expected : ZipExpectedInventory) (hash : Sha256) (entry : ZipEntry) :
    Option Sha256 := do
  let hash ← hash.update [if entry.isDirectory then 0x44 else 0x46]
  let hash ← hashSizedBytes hash entry.path
  if entry.isDirectory then some hash
  else do
    let wanted ← findExpectedFile expected entry.path
    let hash ← hashU64 hash wanted.size
    let hash ← hash.update [UInt8.ofNat wanted.compression.method]
    match wanted.sha256 with
    | none => hash.update [0]
    | some digest => (hash.update [1]).bind (·.update digest.1)

def ZipReader.computeExpectedInventoryBinding (reader : ZipReader)
    (expected : ZipExpectedInventory) : Option Digest := do
  if reader.isOpen = false then none
  else
    let hash ← hashSizedBytes .reset inventoryDomain
    let hash ← hashU64 hash expected.files.length
    let hash ← hashU64 hash expected.directories.length
    let hash ← reader.inventory.entries.foldlM (hashEntry expected) hash
    hash.final

def ZipReader.validatedContentsMatch (reader : ZipReader) (expected : ZipExpectedInventory) : Bool :=
  match reader.validatedContents, reader.computeExpectedInventoryBinding expected with
  | some binding, some current => constantTimeDigestEqual current binding
  | _, _ => false

def ZipReader.clearValidatedContents (reader : ZipReader) : ZipReader :=
  { reader with validatedContents := none }

/-! ### Verification -/

abbrev ZipM := Fallible zipSignature ZipStatus

/-- A progress hook that may be absent; declining cancels. -/
def reportProgress (present : Bool) (hook : ProgressHook) (produced total : Nat) : ZipM Unit :=
  if present then
    ask (S := zipSignature) (.progress hook produced total) >>= fun answer =>
      require (answer = true) .cancelled
  else pure ()

/-- The checks of one expected file against the archive and the expected files before it. -/
def checkExpectedFile (inventory : ZipInventory) (previous : List ZipExpectedFile)
    (wanted : ZipExpectedFile) : ZipM Unit := do
  require (wanted.path ≠ []) .expectedInventoryInvalid
  require (∀ other ∈ previous, wanted.path ≠ other.path) .expectedInventoryInvalid
  require ((inventory.findFile wanted.path).any (fun actual =>
    actual.size == wanted.size && actual.compression == wanted.compression) = true) .inventoryMismatch

/-- The file loop of `VerifyExpectedInventory`: whether any file asks for its digest. -/
def verifyFiles (inventory : ZipInventory) (hasProgress : Bool) (total : Nat) :
    (previous rest : List ZipExpectedFile) → (requiresHash : Bool) → ZipM Bool
  | _, [], requiresHash => pure requiresHash
  | previous, wanted :: rest, requiresHash => do
    checkExpectedFile inventory previous wanted
    reportProgress hasProgress .verify (previous.length + 1) total
    verifyFiles inventory hasProgress total (previous ++ [wanted]) rest
      (requiresHash || wanted.sha256.isSome)

/-- The directory loop of `VerifyExpectedInventory`. -/
def verifyDirectories (inventory : ZipInventory) : (previous rest : List Bytes) → ZipM Unit
  | _, [] => pure ()
  | previous, wanted :: rest => do
    require (wanted ≠ []) .expectedInventoryInvalid
    require (wanted ∉ previous) .expectedInventoryInvalid
    require (inventory.entries.any (fun entry =>
      entry.isDirectory && entry.path == wanted) = true) .inventoryMismatch
    verifyDirectories inventory (previous ++ [wanted]) rest

/-- `VerifyExpectedInventory`: whether the expected inventory asks for any digest. -/
def ZipReader.verifyExpectedInventory (reader : ZipReader) (expected : ZipExpectedInventory)
    (hasProgress : Bool) : ZipM Bool := do
  require (reader.isOpen = true) .notOpen
  require (expected.files.length = reader.inventory.fileCount ∧
    expected.directories.length = reader.inventory.directoryCount) .inventoryMismatch
  let requiresHash ← verifyFiles reader.inventory hasProgress expected.files.length [] expected.files
    false
  verifyDirectories reader.inventory [] expected.directories
  pure requiresHash

/-- `BindAuthenticatedInventory`: contents vouched for by the caller's own digest of the archive. -/
def ZipReader.bindAuthenticatedInventory (reader : ZipReader) (expected : ZipExpectedInventory) :
    Program zipSignature (ZipStatus × ZipReader) :=
  (reader.verifyExpectedInventory expected false).run >>= fun verified =>
    match verified with
    | .error status => pure (status, reader.clearValidatedContents)
    | .ok _ =>
      match reader.computeExpectedInventoryBinding expected with
      | none => pure (.expectedInventoryInvalid, reader.clearValidatedContents)
      | some binding => pure (.ok, { reader with validatedContents := some binding })

end Bmx.Zip
