import Bmx.Zip.Stream

/-!
# Extraction

The entry points that read members: validation of everything, extraction of one file with or
without a pass ahead, and extraction of everything.
-/

namespace Bmx.Zip

open Interaction Update

/-- The status of a call and the reader after it. -/
abbrev ZipAction := Program zipSignature (ZipStatus × ZipReader)

namespace ZipReader

/-- A failed call also forgets that the contents were ever validated. -/
def fail (reader : ZipReader) (status : ZipStatus) : ZipAction :=
  pure (status, reader.clearValidatedContents)

/-- `StreamFile` over the file entries of a list, up to the first that fails. -/
def streamFiles (reader : ZipReader) (sinks : Sinks) (expected : ZipExpectedInventory) :
    List ZipEntry → Program zipSignature ZipStatus
  | [] => pure .ok
  | entry :: rest =>
    if entry.isDirectory then reader.streamFiles sinks expected rest
    else
      reader.streamFile sinks entry (findExpectedFile expected entry.path) >>= fun status =>
        if status = .ok then reader.streamFiles sinks expected rest else pure status

def validateContents (reader : ZipReader) (expected : ZipExpectedInventory) (hasHash : Bool) :
    ZipAction :=
  let reader := reader.clearValidatedContents
  (reader.verifyExpectedInventory expected false).run >>= fun verified =>
    match verified with
    | .error status => pure (status, reader)
    | .ok requiresHash =>
      if requiresHash = true ∧ hasHash = false then pure (.hashSinkRequired, reader)
      else
        match reader.computeExpectedInventoryBinding expected with
        | none => pure (.expectedInventoryInvalid, reader)
        | some binding =>
          reader.streamFiles ⟨hasHash, false, false⟩ expected reader.inventory.entries >>=
            fun status =>
              if status = .ok then
                match reader.computeExpectedInventoryBinding expected with
                | none => pure (.expectedInventoryInvalid, reader)
                | some after =>
                  if constantTimeDigestEqual binding after then
                    pure (.ok, { reader with validatedContents := some after })
                  else pure (.expectedInventoryInvalid, reader)
              else pure (status, reader)

/-- The streaming of `ExtractOne`, with a pass ahead unless the contents are known. -/
def extractEntry (reader : ZipReader) (entry : ZipEntry) (wanted : ZipExpectedFile)
    (hasHash reuse : Bool) : ZipAction :=
  if reuse then
    reader.streamFile ⟨hasHash, true, false⟩ entry wanted >>= fun status =>
      if status = .ok then pure (.ok, reader) else reader.fail status
  else
    reader.streamFile ⟨hasHash, false, false⟩ entry wanted >>= fun status =>
      if status = .ok then
        reader.streamFile ⟨hasHash, true, false⟩ entry wanted >>= fun status =>
          if status = .ok then pure (.ok, reader) else reader.fail status
      else reader.fail status

def extractOne (reader : ZipReader) (path : Bytes) (expected : ZipExpectedInventory)
    (hasSink hasHash : Bool) : ZipAction :=
  if hasSink = false then pure (.invalidArgument, reader)
  else
    (reader.verifyExpectedInventory expected false).run >>= fun verified =>
      match verified with
      | .error status => reader.fail status
      | .ok _ =>
        let reuse := reader.validatedContentsMatch expected
        let reader := if reuse then reader else reader.clearValidatedContents
        match reader.inventory.findFile path with
        | none => reader.fail .entryNotFound
        | some entry =>
          match findExpectedFile expected path with
          | none => reader.fail .inventoryMismatch
          | some wanted =>
            if wanted.sha256.isSome = true ∧ hasHash = false then reader.fail .hashSinkRequired
            else reader.extractEntry entry wanted hasHash reuse

def extractOneSinglePass (reader : ZipReader) (path : Bytes) (expected : ZipExpectedInventory)
    (hasSink hasVerifyProgress hasStreamProgress : Bool) : ZipAction :=
  if hasSink = false then pure (.invalidArgument, reader)
  else
    (reader.verifyExpectedInventory expected hasVerifyProgress).run >>= fun verified =>
      match verified with
      | .error status => reader.fail status
      | .ok _ =>
        match reader.inventory.findFile path with
        | none => reader.fail .entryNotFound
        | some entry =>
          match findExpectedFile expected path with
          | none => reader.fail .inventoryMismatch
          | some wanted =>
            reader.streamFile ⟨false, true, hasStreamProgress⟩ entry wanted >>= fun status =>
              if status = .ok then pure (.ok, reader) else reader.fail status

/-- The directory loop of `ExtractAll`. -/
def extractDirectories : List ZipEntry → Program zipSignature ZipStatus
  | [] => pure .ok
  | entry :: rest =>
    if entry.isDirectory then
      Program.perform (S := zipSignature) (.sinkBegin entry) >>= fun begun =>
        if begun then
          Program.perform (S := zipSignature) (.sinkCommit entry) >>= fun committed =>
            if committed then extractDirectories rest
            else
              Program.perform (S := zipSignature) (.sinkAbort entry) >>= fun _ => pure .sinkError
        else pure .sinkError
    else extractDirectories rest

def extractAll (reader : ZipReader) (expected : ZipExpectedInventory) (hasSink hasHash : Bool) :
    ZipAction :=
  if hasSink = false then reader.fail .invalidArgument
  else
    reader.validateContents expected hasHash >>= fun result =>
      if result.1 = .ok then
        extractDirectories reader.inventory.entries >>= fun status =>
          if status = .ok then
            result.2.streamFiles ⟨hasHash, true, false⟩ expected reader.inventory.entries >>=
              fun status => if status = .ok then pure (.ok, result.2) else result.2.fail status
          else result.2.fail status
      else pure result

end ZipReader

end Bmx.Zip
