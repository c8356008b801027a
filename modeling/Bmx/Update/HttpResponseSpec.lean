import Bmx.Update.HttpResponse

/-!
# The head of a response under growing input

The client parses its buffer again whenever more of it has arrived. An answer other than a demand for more data is the
answer of every longer buffer.
-/

namespace Bmx.Update

/-! ### Lines -/

theorem findCrlf_append {text line rest : Bytes} (more : Bytes) (hfound : findCrlf text = some (line, rest)) :
    findCrlf (text ++ more) = some (line, rest ++ more) := by
  induction text generalizing line with
  | nil => simp [findCrlf] at hfound
  | cons c text ih =>
    cases text with
    | nil => simp [findCrlf] at hfound
    | cons d text =>
      simp only [List.cons_append, findCrlf] at hfound ih ⊢
      by_cases hend : c = cr ∧ d = lf
      · rw [if_pos hend] at hfound ⊢
        cases hfound
        rfl
      · rw [if_neg hend] at hfound ⊢
        by_cases hlf : c = lf
        · simp [if_pos hlf] at hfound
        · rw [if_neg hlf, Option.map_eq_some_iff] at hfound
          obtain ⟨found, hrest, heq⟩ := hfound
          cases heq
          rw [if_neg hlf, ih hrest]
          rfl

/-! ### Fields -/

/-- An answer that more data cannot change. -/
def Settled (result : Except HttpParseStatus α) : Prop := result ≠ .error .needMoreData

/-- The loop with more text after it, at a count that is enough for the whole of it. -/
theorem parseFields_append (full : Bool) {count : Nat} {fields : HeadFields} {headerBytes : Nat} {text : Bytes}
    (hsettled : Settled (parseFields false count fields headerBytes text)) {count' : Nat} (hcount : count ≤ count')
    (more : Bytes) :
    parseFields full count' fields headerBytes (text ++ more) = parseFields false count fields headerBytes text := by
  induction count generalizing count' fields headerBytes text with
  | zero => exact absurd rfl hsettled
  | succ count ih =>
    obtain ⟨count', rfl⟩ : ∃ k, count' = k + 1 := ⟨count' - 1, by omega⟩
    match text with
    | a :: b :: text =>
      simp only [List.cons_append, parseFields] at hsettled ⊢
      by_cases hend : a = cr ∧ b = lf
      · simp only [if_pos hend]
      · by_cases hblank : a = 32 ∨ a = 9
        · simp only [if_neg hend, if_pos hblank]
        · simp only [if_neg hend, if_neg hblank] at hsettled ⊢
          cases hfound : findCrlf (a :: b :: text) with
          | none =>
            rw [hfound] at hsettled
            exact absurd rfl hsettled
          | some found =>
            obtain ⟨line, rest⟩ := found
            have hmore : findCrlf (a :: b :: (text ++ more)) = some (line, rest ++ more) :=
              findCrlf_append more hfound
            rw [hfound] at hsettled
            simp only [hmore] at hsettled ⊢
            cases hfield : parseField fields line with
            | error status => rfl
            | ok fields =>
              rw [hfield] at hsettled
              exact ih hsettled (by omega)

/-! ### The head -/

theorem parseHead_append {input : Bytes} (hlength : input.length < maximumHttpHeaderBytes)
    (hsettled : Settled (parseHead input)) (more : Bytes) : parseHead (input ++ more) = parseHead input := by
  have hfull : decide (input.length = maximumHttpHeaderBytes) = false := decide_eq_false (by omega)
  simp only [parseHead, hfull] at hsettled ⊢
  cases hfound : findCrlf input with
  | none =>
    rw [hfound] at hsettled
    exact absurd rfl hsettled
  | some found =>
    obtain ⟨line, rest⟩ := found
    rw [hfound] at hsettled
    simp only [findCrlf_append more hfound] at hsettled ⊢
    cases hstatus : parseStatusLine line with
    | none => rfl
    | some statusCode =>
      simp only [hstatus] at hsettled ⊢
      have hfields : Settled (parseFields false input.length (.init statusCode) (line.length + 2) rest) := by
        intro hmissing
        rw [hmissing] at hsettled
        exact hsettled rfl
      rw [parseFields_append _ hfields (by simp) more]

theorem settled_of_isOk {result : Except HttpParseStatus α} (hok : result.isOk = true) : Settled result := by
  intro hmissing
  rw [hmissing] at hok
  exact absurd hok Bool.false_ne_true

/-- Whatever is answered other than a demand for more data is the answer of every longer input. -/
theorem parseHttpResponseHead_append (input more : Bytes)
    (hsettled : parseHttpResponseHead input ≠ .error .needMoreData) :
    parseHttpResponseHead (input ++ more) = parseHttpResponseHead input := by
  unfold parseHttpResponseHead at hsettled ⊢
  by_cases hlength : input.length < maximumHttpHeaderBytes
  · have htake : input.take maximumHttpHeaderBytes = input := List.take_of_length_le (by omega)
    rw [htake] at hsettled
    rw [List.take_append, htake]
    exact parseHead_append hlength hsettled _
  · rw [List.take_append_of_le_length (by omega)]

theorem parseHttpResponseHead_append_noContent :
    parseHttpResponseHead (ascii "HTTP/1.1 204 No Content\x0d\x0aServer: a\x0d\x0a\x0d\x0a" ++ ascii "HTTP/1.1") =
      parseHttpResponseHead (ascii "HTTP/1.1 204 No Content\x0d\x0aServer: a\x0d\x0a\x0d\x0a") :=
  parseHttpResponseHead_append _ _ (settled_of_isOk (by decide))

end Bmx.Update
