import Bmx.Update.FileSystemSpec

/-!
# What the adapter verifies

A write handle hashes what it is given, whatever becomes of the card, and a sync that succeeds has
read a file with that hash back.
-/

namespace Bmx.Update

open Interaction FatFs

/-- What a write keeps of its handle and what a sync has seen on the card. -/
def Verified (op : FileSystemOp) (r : FsState) (answer : op.Answer) (r' : FsState) : Prop :=
  match op, answer with
  | .write bytes, answer => ∀ handle, r.handles.write = some handle →
      ∃ handle', r'.handles.write = some handle' ∧ handle'.absolutePath = handle.absolutePath ∧
        handle'.file.path = handle.file.path ∧
        (answer = true → ∀ message, handle.sha256.Fed message → handle'.sha256.Fed (message ++ bytes))
  | .sync, answer => answer = true → ∀ handle message, r.handles.write = some handle →
      handle.sha256.Fed message → ∃ content,
        r.volume.lookup handle.absolutePath = .file content ∧
          sha256Digest content = sha256Digest message
  | _, _ => True

variable {inv : Volume → Prop} {v : Volume} {lost : List Bytes}

theorem verifyChunks_hashes (fuel : Nat) (file : Fil) (hash : Sha256) (remaining : Nat)
    {content : Bytes} (hcontent : v.lookup file.path = .file content) (hinv : inv v)
    (hfed : hash.Fed (content.take file.fptr)) :
    (verifyChunks fuel file hash remaining).Holds (cardContract inv) (fun result s' =>
      s' = (v, lost) ∧ ∀ after done, result = some (after, done) →
        done.Fed (content.take (file.fptr + remaining))) (v, lost) := by
  have hnone : remaining = 0 → ∀ after done, some (file, hash) = some (after, done) →
      done.Fed (content.take (file.fptr + remaining)) := by
    intro hzero after done hsome
    cases hsome
    rwa [hzero, Nat.add_zero]
  induction fuel generalizing file hash remaining with
  | zero =>
    unfold verifyChunks
    split
    · rename_i hzero
      exact ⟨rfl, hnone hzero⟩
    · exact ⟨rfl, fun _ _ hsome => by cases hsome⟩
  | succ fuel ih =>
    unfold verifyChunks
    split
    · rename_i hzero
      exact ⟨rfl, hnone hzero⟩
    · generalize hcount : min fatFsUpdateFileSystemVerifyBufferBytes remaining = count
      refine (readExactChunks_holds count file count hinv).bind fun received s' hreceived => ?_
      obtain ⟨rfl, hreceived⟩ := hreceived
      cases received with
      | none => exact ⟨rfl, fun _ _ hsome => by cases hsome⟩
      | some received =>
        obtain ⟨bytes, after⟩ := received
        obtain ⟨rfl, -, hbytes⟩ := hreceived bytes after rfl
        dsimp only
        cases hupdate : hash.update bytes with
        | none => exact ⟨rfl, fun _ _ hsome => by cases hsome⟩
        | some next =>
          have hnext : next.Fed (content.take (file.fptr + count)) := by
            rw [List.take_add, ← hbytes content hcontent]
            exact hfed.update hupdate
          have hle : count ≤ remaining := by
            rw [← hcount]
            exact Nat.min_le_right _ _
          refine (ih { file with fptr := file.fptr + count } next (remaining - count) hcontent
            hnext ?_).mono fun result s'' hresult => ⟨hresult.1, fun after done hsome => ?_⟩
          · intro hzero after done hsome
            cases hsome
            rwa [hzero, Nat.add_zero]
          · have hdone := hresult.2 after done hsome
            rwa [Nat.add_assoc, Nat.add_sub_cancel' hle] at hdone

namespace FatFsUpdateFileSystem

/-- A sync that succeeds has read a file back that has the hash of the handle. -/
theorem verifySyncedWrite_hashes (handle : WriteHandle) (hinv : inv v) :
    (verifySyncedWrite handle).Holds (cardContract inv) (fun answer _ => answer = true →
      ∀ message, handle.sha256.Fed message → ∃ content,
        v.lookup handle.absolutePath = .file content ∧
          sha256Digest content = sha256Digest message) (v, lost) := by
  unfold verifySyncedWrite
  refine (quiet_holds fSync_asks hinv).bind fun (status, _) s₁ hs₁ => ?_
  rw [hs₁]
  dsimp only
  split
  · exact fun h => by cases h
  cases hexpected : handle.sha256.final with
  | none => exact fun h => by cases h
  | some expected =>
    refine (quiet_holds statAbsolute_asks hinv).bind fun before s₂ hs₂ => ?_
    rw [hs₂]
    split
    · exact fun h => by cases h
    refine (fOpenExisting_holds hinv).bind fun (status, file) s₃ hanswer => ?_
    obtain ⟨hs₃, hexchange⟩ := hanswer
    rw [hs₃]
    split
    · exact fun h => by cases h
    rename_i hok
    obtain ⟨content, hcontent, hfile⟩ := hexchange.openExisting (not_not.1 hok)
    obtain rfl : file = ⟨handle.absolutePath, 0, content.length⟩ := hfile
    have hread : (if content.length ≠ handle.written then pure none
        else verifyChunks handle.written ⟨handle.absolutePath, 0, content.length⟩ Sha256.reset
          handle.written : Program signature (Option (Fil × Sha256))).Holds (cardContract inv)
        (fun result s' => s' = (v, lost) ∧ ∀ after done, result = some (after, done) →
          done.Fed content) (v, lost) := by
      split
      · exact ⟨rfl, fun _ _ hsome => by cases hsome⟩
      · rename_i hsize
        refine (verifyChunks_hashes handle.written ⟨handle.absolutePath, 0, content.length⟩
          Sha256.reset handle.written hcontent hinv Sha256.fed_reset).mono
          fun result s' hresult => ⟨hresult.1, fun after done hsome => ?_⟩
        have hdone := hresult.2 after done hsome
        rwa [Nat.zero_add, ← not_not.1 hsize, List.take_length] at hdone
    refine hread.bind fun result s₄ hresult => ?_
    obtain ⟨hs₄, hresult⟩ := hresult
    rw [hs₄]
    have hend : (verifyEnd ((result.map Prod.fst).getD ⟨handle.absolutePath, 0, content.length⟩)
        (result.map Prod.snd)).Holds (cardContract inv) (fun actual s' => s' = (v, lost) ∧
          ∀ done, actual = some done → done.Fed content) (v, lost) := by
      have hquiet := quiet_holds (verifyEnd_asks
        ((result.map Prod.fst).getD ⟨handle.absolutePath, 0, content.length⟩) (result.map Prod.snd))
        (s := (v, lost)) hinv
      refine hquiet.and ?_
      cases result with
      | none =>
        unfold verifyEnd
        exact (quiet_holds fClose_asks hinv).bind fun _ _ _ _ hsome => by cases hsome
      | some result =>
        obtain ⟨after, done⟩ := result
        unfold verifyEnd
        refine (fRead_holds hinv).bind fun (status, extra) s' hs' => ?_
        rw [hs'.1]
        refine (quiet_holds fClose_asks hinv).bind fun (closed, _) s'' hs'' hash hhash => ?_
        split at hhash
        · cases hhash
          exact hresult after done rfl
        · cases hhash
    refine hend.bind fun actual s₅ hactual => ?_
    obtain ⟨hs₅, hactual⟩ := hactual
    rw [hs₅]
    split
    · exact fun h => by cases h
    · rename_i digest hdigest
      obtain ⟨done, hdone, hfinal⟩ := Option.bind_eq_some_iff.1 hdigest
      split
      · exact fun h => by cases h
      · rename_i hequal
        rw [Bool.not_eq_false, constantTimeDigestEqual_iff] at hequal
        refine (quiet_holds statAbsolute_asks hinv).bind fun after s₆ hs₆ => ?_
        intro _ message hfed
        refine ⟨content, hcontent, ?_⟩
        rw [(hactual done hdone).final hfinal, hfed.final hexpected, hequal]

theorem layer_verified_holds {fs : FatFsUpdateFileSystem} {handles : Handles} (op : FileSystemOp)
    (hinv : ∀ v', Midway fs op ⟨v, handles, lost⟩ v' → inv v') :
    (fs.layer op handles).Holds (cardContract inv) (fun reply s' =>
      Verified op ⟨v, handles, lost⟩ reply.1 ⟨s'.1, reply.2, s'.2⟩) (v, lost) := by
  have hstart : inv v := hinv v (.inl rfl)
  cases op with
  | write bytes =>
    change (fs.write bytes handles).Holds _ _ _
    unfold write
    cases hhandle : handles.write with
    | none =>
      intro handle hopened
      exact absurd (hhandle.symm.trans hopened) (by simp)
    | some handle =>
      dsimp only
      split
      · intro opened hopened
        obtain rfl : handle = opened := Option.some.inj (hhandle.symm.trans hopened)
        exact ⟨handle, hhandle, rfl, rfl, fun h => by cases h⟩
      · have hcards : ∀ v', (v' = v ∨ ∃ content, Sets v v' handle.file.path (.file content)) →
            inv v' := by
          rintro v' (h | ⟨content, h⟩)
          · exact hinv v' (.inl h)
          · exact hinv v' (.inr ⟨handle, hhandle, content, h⟩)
        refine (writeChunks_holds bytes.length handle bytes v (.inl rfl) hcards).bind
          fun reply s' hreply => ?_
        obtain ⟨stored, after⟩ := reply
        obtain ⟨-, hpath, habsolute, -, hdone⟩ := hreply
        intro opened hopened
        obtain rfl : handle = opened := Option.some.inj (hhandle.symm.trans hopened)
        refine ⟨after, rfl, habsolute, hpath, fun htrue => (hdone ?_).1⟩
        change (stored && _) = true at htrue
        exact (Bool.and_eq_true _ _ ▸ htrue).1
  | sync =>
    change (fs.sync handles >>= fun answer => pure (answer, handles)).Holds _ _ _
    unfold sync
    cases hhandle : handles.write with
    | none => exact fun h => by cases h
    | some handle =>
      dsimp only
      split
      · exact fun h => by cases h
      · refine (verifySyncedWrite_hashes handle hstart).bind fun answer s' hanswer => ?_
        intro htrue opened message hopened hfed
        obtain rfl : handle = opened := Option.some.inj (hhandle.symm.trans hopened)
        exact hanswer htrue message hfed
  | _ => exact (layer_holds _ hinv).mono fun _ _ _ => trivial

end FatFsUpdateFileSystem

end Bmx.Update
