import Bmx.Remote.HttpParser

/-!
# The request parser fed in pieces

A parser that wants more goes on where it stopped, and the bytes behind a complete head do not
matter to it.
-/

namespace Bmx.Remote

namespace HttpRequestParser

theorem finishHead_status (request : HttpRequestHead) (sawTransferEncoding : Bool) :
    finishHead request sawTransferEncoding ≠ .needMoreData := by
  unfold finishHead
  split
  · exact nofun
  · split
    · exact nofun
    · exact nofun

theorem parseHeader_status (line : Bytes) (request : HttpRequestHead) :
    (parseHeader line request).1 ≠ some .needMoreData := by
  unfold parseHeader
  dsimp only
  repeat' split
  all_goals exact nofun

theorem parseHeaders_status (fuel : Nat) (rest : Bytes) (request : HttpRequestHead) (sawTransferEncoding : Bool) :
    (parseHeaders fuel rest request sawTransferEncoding).1 ≠ .needMoreData := by
  induction fuel generalizing rest request sawTransferEncoding with
  | zero => exact nofun
  | succ fuel ih =>
    rw [parseHeaders]
    split
    · exact finishHead_status _ _
    · split
      · exact nofun
      · split
        · exact nofun
        · exact finishHead_status _ _
      · split
        · rename_i line after _ _ _ status _ _ hparsed
          have hstatus := parseHeader_status line request
          rw [hparsed] at hstatus
          exact fun h => hstatus (congrArg some h)
        · exact ih _ _ _

theorem parseRequestLine_status (line : Bytes) (request : HttpRequestHead) :
    (parseRequestLine line request).1 ≠ some .needMoreData := by
  unfold parseRequestLine
  repeat' split
  all_goals exact nofun

theorem completeHead_status (p : HttpRequestParser) : p.completeHead.status ≠ .needMoreData := by
  show (parseCompleteHead p.buffer p.request).1 ≠ _
  unfold parseCompleteHead
  split
  · exact nofun
  · rename_i line rest _
    split
    · exact nofun
    · split
      · rename_i status _ hparsed
        have hstatus := parseRequestLine_status line p.request
        rw [hparsed] at hstatus
        exact fun h => hstatus (congrArg some h)
      · exact parseHeaders_status _ _ _ _

/-- What a call of `Feed` on a parser that wants more does. -/
structure FedOnce (p : HttpRequestParser) (data : Bytes) (consumed : Nat) (p' : HttpRequestParser) :
    Prop where
  bounded : consumed ≤ data.length
  buffer : p'.buffer = p.buffer ++ data.take consumed
  wants : p'.status = .needMoreData → consumed = data.length
  progress : data ≠ [] → p'.status = .needMoreData ∨ p'.status = .complete → 0 < consumed

theorem feedLoop_spec {p : HttpRequestParser} (hstatus : p.status = .needMoreData) (data : Bytes) :
    FedOnce p data (p.feedLoop data).1 (p.feedLoop data).2 := by
  induction data generalizing p with
  | nil =>
    rw [feedLoop]
    split
    · exact ⟨Nat.le_refl _, (List.append_nil _).symm, nofun, fun h => absurd rfl h⟩
    · exact ⟨Nat.le_refl _, (List.append_nil _).symm, fun _ => rfl, fun h => absurd rfl h⟩
  | cons value rest ih =>
    have hrefused {status : HttpRequestParseStatus} (hnot : status ≠ .needMoreData)
        (hnot' : status ≠ .complete) : FedOnce p (value :: rest) 0 (p.fail status) :=
      ⟨Nat.zero_le _, (List.append_nil _).symm, fun h => absurd h hnot,
        fun _ h => h.elim (absurd · hnot) (absurd · hnot')⟩
    rw [feedLoop]
    split
    · exact hrefused nofun nofun
    · split
      · exact hrefused nofun nofun
      · split
        · exact hrefused nofun nofun
        · split
          · exact ⟨Nat.succ_le_succ (Nat.zero_le _), rfl, fun h => absurd h (completeHead_status _),
              fun _ _ => Nat.one_pos⟩
          · have hrest := ih (p := p.push value) hstatus
            refine ⟨Nat.succ_le_succ hrest.bounded, ?_, ?_, fun _ _ => Nat.succ_pos _⟩
            · rw [List.take_succ_cons, hrest.buffer]
              exact List.append_assoc _ _ _
            · intro hwants
              show ((p.push value).feedLoop rest).1 + 1 = rest.length + 1
              rw [hrest.wants hwants]

theorem feedLoop_append {p : HttpRequestParser} {first second : Bytes}
    (hwants : (p.feedLoop first).2.status = .needMoreData) :
    p.feedLoop (first ++ second) =
      ((p.feedLoop first).1 + ((p.feedLoop first).2.feedLoop second).1,
        ((p.feedLoop first).2.feedLoop second).2) := by
  induction first generalizing p with
  | nil =>
    rw [feedLoop] at hwants ⊢
    split at hwants
    · cases hwants
    · rename_i hroom
      rw [if_neg hroom]
      simp
  | cons value rest ih =>
    rw [feedLoop] at hwants
    split at hwants
    · cases hwants
    · rename_i hroom
      split at hwants
      · cases hwants
      · rename_i hvalue
        split at hwants
        · cases hwants
        · rename_i hending
          split at hwants
          · exact absurd hwants (completeHead_status _)
          · rename_i hends
            have hrest := ih hwants
            rw [List.cons_append, feedLoop, feedLoop, if_neg hroom, if_neg hvalue, if_neg hending,
              if_neg hends, if_neg hroom, if_neg hvalue, if_neg hending, if_neg hends, hrest]
            exact Prod.ext (Nat.add_right_comm _ _ _) rfl

theorem feedLoop_take {p : HttpRequestParser} {data : Bytes}
    (hcomplete : (p.feedLoop data).2.status = .complete) (hstatus : p.status = .needMoreData) :
    p.feedLoop (data.take (p.feedLoop data).1) = p.feedLoop data := by
  induction data generalizing p with
  | nil => rfl
  | cons value rest ih =>
    rw [feedLoop] at hcomplete
    split at hcomplete
    · cases hcomplete
    · rename_i hroom
      split at hcomplete
      · cases hcomplete
      · rename_i hvalue
        split at hcomplete
        · cases hcomplete
        · rename_i hending
          split at hcomplete
          · rename_i hends
            rw [feedLoop, if_neg hroom, if_neg hvalue, if_neg hending, if_pos hends]
            show p.feedLoop [value] = _
            rw [feedLoop, if_neg hroom, if_neg hvalue, if_neg hending, if_pos hends]
          · rename_i hends
            have hrest := ih (p := p.push value) hcomplete hstatus
            rw [feedLoop, if_neg hroom, if_neg hvalue, if_neg hending, if_neg hends]
            show p.feedLoop (value :: rest.take _) = _
            rw [feedLoop, if_neg hroom, if_neg hvalue, if_neg hending, if_neg hends, hrest]

/-- The parser takes exactly these bytes for a head, and reads this request from them. -/
def Accepts (start : HttpRequestParser) (head : Bytes) (request : HttpRequestHead) : Prop :=
  (start.feed head).1 = head.length ∧ (start.feed head).2.status = .complete ∧
    (start.feed head).2.request = request

end HttpRequestParser

end Bmx.Remote
