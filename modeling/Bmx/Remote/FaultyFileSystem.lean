import Bmx.Remote.DeveloperFileTransactionSpec
import Bmx.Update.FileSystemVerified

/-!
# The file system on a faulty card

The adapter over FatFs, with every pattern of failures in FatFs and above it. Its calls leave behind
what the adapter may leave behind or fail without effect, a sync that succeeds has read the file
back, and a stat fails only where one of its exchanges does.
-/

namespace Bmx.Remote

open Interaction FatFs Update FatFsUpdateFileSystem

/-- The exchange is a failed stat of this path, in FatFs or in a call of the file system. -/
def FailsStat (fs : FatFsUpdateFileSystem) :
    (op : uploadSignature.Op) → uploadSignature.Answer op → Bytes → Prop
  | .inl (.stat absolute), answer, path => absolute = path ∧ FResult.isFault answer.1 = true
  | .inr (.stat name), fails, path => fs.resolve name = some path ∧ fails = true
  | _, _, _ => False

/-- Every pattern of failures but a failed stat of a fragile path, on a card that is asked only
where `inv` holds. -/
def frailDevice (fs : FatFsUpdateFileSystem) (inv : Volume → Prop) (fragile : Bytes → Volume → Prop) :
    Contract uploadSignature Volume where
  pre _ v := inv v
  post op v answer v' := uploadEnv op v answer v' ∧ ∀ path, FailsStat fs op answer path → ¬ fragile path v

/-- A call of the file system that is a failed stat of a fragile path. -/
def FailsFragile (fs : FatFsUpdateFileSystem) (fragile : Bytes → Volume → Prop) :
    (op : FileSystemOp) → FsState → op.Answer → Prop
  | .stat name, r, answer => answer = none ∧ ∃ path, fs.resolve name = some path ∧ fragile path r.volume
  | _, _, _ => False

/-- What a call of the file system leaves behind where it succeeds is verified; a failure without
effect has nothing to verify. -/
theorem verified_failure (op : FileSystemOp) (r : FsState) : Verified op r (failureOf op) r := by
  cases op with
  | write bytes => exact fun handle hhandle => ⟨handle, hhandle, rfl, rfl, fun h => by cases h⟩
  | sync => exact fun h => by cases h
  | _ => exact trivial

section Device

variable {fs : FatFsUpdateFileSystem} {inv : Volume → Prop} {fragile : Bytes → Volume → Prop}
  {v : Volume} {handles : Handles} {lost : List Bytes}

/-- The device where FatFs is called. -/
def frailCard (fs : FatFsUpdateFileSystem) (inv : Volume → Prop) (fragile : Bytes → Volume → Prop) :
    Contract FatFs.signature Volume :=
  ⟨fun op => (frailDevice fs inv fragile).pre (.inl op), fun op => (frailDevice fs inv fragile).post (.inl op)⟩

theorem statAbsolute_sturdy {path : Bytes} (hinv : inv v) :
    (statAbsolute path).Holds (frailCard fs inv fragile)
      (fun info _ => info = none → ¬ fragile path v) v := by
  have hstat : (fStat path).Holds (frailCard fs inv fragile)
      (fun answer _ => answer = v.stat path ∨ ¬ fragile path v) v := by
    refine ⟨hinv, fun answer v' hpost => ?_⟩
    rcases Exchange.stat hpost.1 with hstat | hfault
    · exact .inl hstat
    · exact .inr (hpost.2 path ⟨rfl, hfault⟩)
  refine hstat.bind fun answer v' hanswer => ?_
  rcases hanswer with hanswer | hclean
  · rw [hanswer]
    unfold Volume.stat
    cases hnode : v.lookup path with
    | missing =>
      have hmissing : isMissing (v.absent path) = true := by
        unfold Volume.absent
        split <;> rfl
      simp [hmissing]
    | file content => simp [isMissing]
    | directory => simp [isMissing]
  · dsimp only
    split_ifs <;> exact fun _ => hclean

theorem stat_sturdy {name : Bytes} (hinv : inv v) :
    (fs.layer (.stat name) handles).Holds (frailCard fs inv fragile)
      (fun reply _ => ¬ FailsFragile fs fragile (.stat name) ⟨v, handles, lost⟩ reply.1) v := by
  change (fs.stat name >>= fun answer => pure (answer, handles)).Holds _ _ _
  unfold stat
  cases hresolve : fs.resolve name with
  | none =>
    rintro ⟨-, path, hpath, -⟩
    rw [hresolve] at hpath
    cases hpath
  | some absolute =>
    refine (statAbsolute_sturdy hinv).bind fun answer v' hanswer => ?_
    rintro ⟨hnone, path, hpath, hfragile⟩
    obtain rfl : absolute = path := Option.some.inj (hresolve.symm.trans hpath)
    exact hanswer hnone hfragile

theorem faultyLayer_holds {op : FileSystemOp} (hinv : ∀ v', Midway fs op ⟨v, handles, lost⟩ v' → inv v') :
    (fs.layer.faulty failureOf op handles).Holds (frailDevice fs inv fragile) (fun reply v' =>
      ∃ lost', Outcome fs op ⟨v, handles, lost⟩ reply.1 ⟨v', reply.2, lost'⟩ ∧
        Verified op ⟨v, handles, lost⟩ reply.1 ⟨v', reply.2, lost'⟩ ∧
        ¬ FailsFragile fs fragile op ⟨v, handles, lost⟩ reply.1) v := by
  have hstart : inv v := hinv v (.inl rfl)
  refine ⟨hstart, fun fails v' hpost => ?_⟩
  obtain ⟨hsame, hsturdy⟩ := hpost
  obtain rfl : v' = v := hsame
  cases fails with
  | true =>
    refine ⟨lost, .inr ⟨rfl, rfl⟩, verified_failure op _, fun hfails => ?_⟩
    cases op with
    | stat name =>
      obtain ⟨-, path, hpath, hfragile⟩ := hfails
      exact hsturdy path ⟨hpath, rfl⟩ hfragile
    | _ => exact hfails
  | false =>
    refine (Program.holds_left _ _).2 ?_
    have hafter : (fs.layer op handles).Holds (frailCard fs inv fragile) (fun reply v'' => ∃ lost',
        After fs op ⟨v', handles, lost⟩ reply.1 ⟨v'', reply.2, lost'⟩ ∧
          Verified op ⟨v', handles, lost⟩ reply.1 ⟨v'', reply.2, lost'⟩) v' := by
      have hboth := (layer_holds op hinv).and
        (layer_verified_holds op hinv)
      exact hboth.unobserved.contract_mono (fun _ _ h => h) fun _ _ _ _ _ hpost => hpost.1
    have hstat : (fs.layer op handles).Holds (frailCard fs inv fragile)
        (fun reply _ => ¬ FailsFragile fs fragile op ⟨v', handles, lost⟩ reply.1) v' := by
      cases op with
      | stat name => exact stat_sturdy hstart
      | _ => exact hafter.mono fun _ _ _ => id
    refine (hafter.and hstat).mono fun reply v'' hreply => ?_
    obtain ⟨⟨lost', hafter, hverified⟩, hclean⟩ := hreply
    exact ⟨lost', .inl hafter, hverified, hclean⟩

end Device

end Bmx.Remote
