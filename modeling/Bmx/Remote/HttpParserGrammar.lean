import Bmx.Remote.HttpParserSpec

/-!
# What the request parser accepts

However a stream is cut into pieces, the parser ends where it ends on the whole stream. A head it
accepts is a request line, header lines and an empty line, and what it reports are parts of them.
-/

namespace Bmx.Remote

open HttpRequestParser List

/-! ### The grammar -/

def methodText : HttpMethod → Bytes
  | .get => ascii "GET"
  | .head => ascii "HEAD"
  | .put => ascii "PUT"
  | .post => ascii "POST"
  | .delete => ascii "DELETE"

def TokenCharacter (c : UInt8) : Prop := isTokenCharacter c = true ∧ c ≠ 0

def TargetCharacter (c : UInt8) : Prop := 0x20 < c ∧ c ≤ 0x7e ∧ c ≠ 35

def ValueCharacter (c : UInt8) : Prop := (0x20 ≤ c ∨ c = tab) ∧ c ≠ 0x7f

def HttpHeaderView.IsContentLength (header : HttpHeaderView) : Prop :=
  httpStringEqualsInsensitive header.name (ascii "Content-Length") = true

def HttpHeaderView.IsTransferEncoding (header : HttpHeaderView) : Prop :=
  httpStringEqualsInsensitive header.name (ascii "Transfer-Encoding") = true

/-- A header line without its line end: a token, a colon, and the value between blanks. -/
structure HeaderLine (line : Bytes) (header : HttpHeaderView) : Prop where
  shape : ∃ before after : Bytes, line = header.name ++ 58 :: (before ++ header.value ++ after) ∧
    (∀ c ∈ before, isBlank c = true) ∧ ∀ c ∈ after, isBlank c = true
  named : header.name ≠ []
  name : ∀ c ∈ header.name, isTokenCharacter c = true
  value : ∀ c ∈ header.value, ValueCharacter c

structure RequestTarget (request : HttpRequestHead) : Prop where
  start : request.rawTarget.head? = some slash
  length : request.rawTarget.length ≤ httpMaximumRequestTargetBytes
  characters : ∀ c ∈ request.rawTarget, TargetCharacter c
  parts : ∃ path, request.rawPath = some path ∧ 63 ∉ path ∧
    request.rawTarget = path ++ if request.hasQuery then 63 :: request.rawQuery else request.rawQuery
  query : request.hasQuery = false → request.rawQuery = []

structure HeadersRead (request : HttpRequestHead) (sawTransferEncoding : Bool) : Prop where
  count : request.headers.length ≤ httpMaximumRequestHeaders
  length : ∀ header ∈ request.headers, header.IsContentLength →
    request.hasContentLength = true ∧ parseDecimal header.value = some request.contentLength
  present : request.hasContentLength = true → ∃ header ∈ request.headers, header.IsContentLength
  encoding : sawTransferEncoding = false → ∀ header ∈ request.headers, ¬ header.IsTransferEncoding

/-- The lines of a head, each with its line end. -/
def joinLines (lines : List Bytes) : Bytes := lines.flatMap fun line => line ++ crlf

/-- The strings a request refers to. -/
def HttpRequestHead.views (request : HttpRequestHead) : List Bytes :=
  request.rawTarget :: request.rawQuery :: request.rawPath.toList ++
    request.headers.flatMap fun header => [header.name, header.value]

/-- A head of the grammar, with the request it stands for. -/
structure RequestHead (head : Bytes) (request : HttpRequestHead) : Prop where
  shape : ∃ lines, head = joinLines [methodText request.method ++ space :: (request.rawTarget ++
    space :: ascii "HTTP/1.1")] ++ joinLines lines ++ crlf ∧
      List.Forall₂ HeaderLine lines request.headers
  target : RequestTarget request
  headers : HeadersRead request false
  names : ∀ header ∈ request.headers, ∀ c ∈ header.name, TokenCharacter c
  views : ∀ view ∈ request.views, view <:+: head

/-! ### Lines -/

variable {buffer line value : Bytes} {separator : UInt8} {request request' : HttpRequestHead} {lines : List Bytes}

theorem findCrlf_eq_some {after : Bytes} (h : findCrlf buffer = some (line, after)) :
    buffer = line ++ crlf ++ after ∧ ¬ crlf <:+ line := by
  induction buffer generalizing line with
  | nil => cases h
  | cons a rest ih =>
    cases rest with
    | nil => cases h
    | cons b rest =>
      rw [findCrlf] at h
      split at h
      · rename_i hcrlf
        cases h
        obtain ⟨rfl, rfl⟩ := hcrlf
        exact ⟨rfl, by decide⟩
      · rename_i hcrlf
        obtain ⟨⟨line', after'⟩, hfound, heq⟩ := Option.map_eq_some_iff.1 h
        cases heq
        obtain ⟨hjoin, hsuffix⟩ := ih hfound
        refine ⟨by rw [hjoin]; rfl, fun hend => ?_⟩
        rcases suffix_cons_iff.1 hend with hwhole | hlater
        · -- the line itself would be a line end, which the search has just ruled out
          cases hwhole
          obtain ⟨rfl, -⟩ := cons.inj hjoin
          exact hcrlf ⟨rfl, rfl⟩
        · exact hsuffix hlater

theorem splitAt_eq_some {before after : Bytes} (h : splitAt separator value = some (before, after)) :
    value = before ++ separator :: after ∧ separator ∉ before := by
  induction value generalizing before with
  | nil => cases h
  | cons c rest ih =>
    rw [splitAt] at h
    split at h
    · rename_i hsame
      cases h
      exact ⟨by rw [hsame]; rfl, not_mem_nil⟩
    · rename_i hother
      obtain ⟨⟨before', after'⟩, hfound, heq⟩ := Option.map_eq_some_iff.1 h
      cases heq
      obtain ⟨hjoin, hnot⟩ := ih hfound
      refine ⟨by rw [hjoin]; rfl, fun hmem => ?_⟩
      rcases mem_cons.1 hmem with rfl | hmem
      · exact hother rfl
      · exact hnot hmem

theorem splitAt_eq_none (h : splitAt separator value = none) : separator ∉ value := by
  induction value with
  | nil => exact not_mem_nil
  | cons c rest ih =>
    rw [splitAt] at h
    split at h
    · cases h
    · rename_i hother
      intro hmem
      rcases mem_cons.1 hmem with rfl | hmem
      · exact hother rfl
      · exact ih (Option.map_eq_none_iff.1 h) hmem

theorem trimBlanks_spec (value : Bytes) : ∃ before after, value = before ++ trimBlanks value ++ after ∧
    (∀ c ∈ before, isBlank c = true) ∧ ∀ c ∈ after, isBlank c = true := by
  refine ⟨value.takeWhile isBlank, ((value.dropWhile isBlank).reverse.takeWhile isBlank).reverse, ?_,
    fun c hc => mem_takeWhile_imp hc, fun c hc => mem_takeWhile_imp (mem_reverse.1 hc)⟩
  have hback : trimBlanks value ++ ((value.dropWhile isBlank).reverse.takeWhile isBlank).reverse =
      value.dropWhile isBlank := by
    rw [trimBlanks, ← reverse_append, takeWhile_append_dropWhile, reverse_reverse]
  rw [append_assoc, hback, takeWhile_append_dropWhile]

theorem parseMethod_eq_some {method : HttpMethod} (h : parseMethod value = some method) :
    value = methodText method := by
  unfold parseMethod at h
  repeat' split at h
  all_goals first | (obtain rfl := Option.some.inj h; assumption) | cases h

/-! ### The request line and one header -/

theorem parseRequestLine_accepted (h : parseRequestLine line request = (none, request')) :
    line = methodText request'.method ++ space :: (request'.rawTarget ++ space :: ascii "HTTP/1.1") ∧
      RequestTarget request' ∧ request'.headers = request.headers ∧
      request'.hasContentLength = request.hasContentLength := by
  unfold parseRequestLine at h
  split at h
  · cases h
  rename_i method rest hfirst
  split at h
  · cases h
  split at h
  · cases h
  rename_i target version hsecond
  split at h
  · cases h
  split at h
  · cases h
  rename_i method' hmethod
  split at h
  · cases h
  rename_i hlength
  split at h
  · cases h
  rename_i hstart
  split at h
  · cases h
  rename_i hcharacters
  split at h
  · cases h
  rename_i hversion
  have hline : line = methodText method' ++ space :: (target ++ space :: ascii "HTTP/1.1") := by
    rw [(splitAt_eq_some hfirst).1, (splitAt_eq_some hsecond).1, parseMethod_eq_some hmethod, not_not.1 hversion]
  have hall : ∀ c ∈ target, TargetCharacter c := by
    intro c hc
    by_contra hbad
    refine hcharacters (any_eq_true.2 ⟨c, hc, ?_⟩)
    unfold TargetCharacter at hbad
    simp only [not_and, not_not] at hbad
    simp only [decide_eq_true_eq]
    by_cases hlow : c ≤ 0x20
    · exact .inl hlow
    · by_cases hhigh : c > 0x7e
      · exact .inr (.inl hhigh)
      · exact .inr (.inr (hbad (UInt8.not_le.1 hlow) (UInt8.not_lt.1 hhigh)))
  split at h
  · rename_i hquery
    obtain ⟨-, rfl⟩ := Prod.mk.inj h
    exact ⟨hline, ⟨not_not.1 hstart, Nat.le_of_not_lt hlength, hall,
      ⟨target, rfl, splitAt_eq_none hquery, (append_nil target).symm⟩, fun _ => rfl⟩, rfl, rfl⟩
  · rename_i path query hquery
    obtain ⟨-, rfl⟩ := Prod.mk.inj h
    exact ⟨hline, ⟨not_not.1 hstart, Nat.le_of_not_lt hlength, hall,
      ⟨path, rfl, (splitAt_eq_some hquery).2, (splitAt_eq_some hquery).1⟩, fun hnone => by cases hnone⟩,
      rfl, rfl⟩

theorem parseRequestLine_not_complete (line : Bytes) (request : HttpRequestHead) :
    (parseRequestLine line request).1 ≠ some .complete := by
  unfold parseRequestLine
  repeat' split
  all_goals exact nofun

theorem parseHeader_not_complete (line : Bytes) (request : HttpRequestHead) :
    (parseHeader line request).1 ≠ some .complete := by
  unfold parseHeader
  dsimp only
  repeat' split
  all_goals exact nofun

structure HeaderAdded (line : Bytes) (request request' : HttpRequestHead) (isTransferEncoding : Bool) :
    Prop where
  header : ∃ header, HeaderLine line header ∧ request'.headers = request.headers ++ [header]
  target : request'.method = request.method ∧ request'.rawTarget = request.rawTarget ∧
    request'.rawPath = request.rawPath ∧ request'.rawQuery = request.rawQuery ∧
    request'.hasQuery = request.hasQuery
  read : ∀ saw, HeadersRead request saw → HeadersRead request' (saw || isTransferEncoding)

theorem parseHeader_accepted
    {isTransferEncoding : Bool} (h : parseHeader line request = (none, request', isTransferEncoding)) :
    HeaderAdded line request request' isTransferEncoding := by
  unfold parseHeader at h
  split at h
  · cases h
  split at h
  · cases h
  rename_i name rest hcolon
  split at h
  · cases h
  rename_i hname
  dsimp only at h
  split at h
  · cases h
  rename_i hvalue
  split at h
  · cases h
  rename_i hroom
  rw [not_or, not_not] at hname
  have hline : HeaderLine line ⟨name, trimBlanks rest⟩ := by
    refine ⟨?_, hname.1, fun c hc => all_eq_true.1 hname.2 c hc, fun c hc => ?_⟩
    · obtain ⟨before, after, hrest, hbefore, hafter⟩ := trimBlanks_spec rest
      exact ⟨before, after, (splitAt_eq_some hcolon).1.trans (by rw [← hrest]), hbefore, hafter⟩
    · by_contra hbad
      refine hvalue (any_eq_true.2 ⟨c, hc, ?_⟩)
      unfold ValueCharacter at hbad
      simp only [decide_eq_true_eq]
      by_cases hdelete : c = 0x7f
      · exact .inr hdelete
      · refine .inl ⟨UInt8.not_le.1 fun hle => hbad ⟨.inl hle, hdelete⟩, fun htab => ?_⟩
        exact hbad ⟨.inr htab, hdelete⟩
  have hcount : (request.headers ++ [(⟨name, trimBlanks rest⟩ : HttpHeaderView)]).length ≤
      httpMaximumRequestHeaders := by
    rw [length_append]
    exact Nat.lt_of_not_le hroom
  split at h
  · rename_i hlength
    split at h
    · cases h
    rename_i parsedLength hparsed
    split at h
    · cases h
    rename_i hagrees
    obtain ⟨-, hrequest⟩ := Prod.mk.inj h
    cases hrequest
    refine ⟨⟨_, hline, rfl⟩, ⟨rfl, rfl, rfl, rfl, rfl⟩, fun saw hread => ?_⟩
    refine ⟨hcount, fun header hheader hcontent => ⟨rfl, ?_⟩, fun _ => ?_, fun hsaw header hheader => ?_⟩
    · rcases mem_append.1 hheader with hold | hnew
      · obtain ⟨hhas, hdecimal⟩ := hread.length header hold hcontent
        rw [hdecimal]
        exact congrArg some (not_not.1 fun hne => hagrees ⟨hhas, hne⟩)
      · obtain rfl := mem_singleton.1 hnew
        exact hparsed
    · exact ⟨_, mem_append_right _ (mem_singleton.2 rfl), hlength⟩
    · rw [Bool.or_false] at hsaw
      rcases mem_append.1 hheader with hold | hnew
      · exact hread.encoding hsaw header hold
      · obtain rfl := mem_singleton.1 hnew
        intro hencoding
        have hnames := (foldEqual_iff.1 hlength).symm.trans (foldEqual_iff.1 hencoding)
        revert hnames
        decide
  · rename_i hlength
    obtain ⟨-, hrequest⟩ := Prod.mk.inj h
    cases hrequest
    refine ⟨⟨_, hline, rfl⟩, ⟨rfl, rfl, rfl, rfl, rfl⟩, fun saw hread => ?_⟩
    refine ⟨hcount, fun header hheader hcontent => ?_, fun hhas => ?_, fun hsaw header hheader => ?_⟩
    · rcases mem_append.1 hheader with hold | hnew
      · exact hread.length header hold hcontent
      · obtain rfl := mem_singleton.1 hnew
        exact absurd hcontent hlength
    · obtain ⟨header, hheader, hcontent⟩ := hread.present hhas
      exact ⟨header, mem_append_left _ hheader, hcontent⟩
    · rw [Bool.or_eq_false_iff] at hsaw
      rcases mem_append.1 hheader with hold | hnew
      · exact hread.encoding hsaw.1 header hold
      · obtain rfl := mem_singleton.1 hnew
        exact fun hencoding => absurd (hencoding.symm.trans hsaw.2) (by decide)

/-! ### The head -/

/-- The line end before `rest` and `rest` itself end in an empty line. -/
def EndsInEmptyLine (rest : Bytes) : Prop := crlf ++ crlf <:+ crlf ++ rest

theorem EndsInEmptyLine.after {after : Bytes} (h : EndsInEmptyLine (line ++ crlf ++ after))
    (hline : line ≠ []) (hfirst : ¬ crlf <:+ line) : EndsInEmptyLine after := by
  unfold EndsInEmptyLine at h ⊢
  match after with
  | [] =>
    rw [append_nil, ← append_assoc] at h
    obtain ⟨w, hw⟩ := h
    rw [← append_assoc, append_cancel_right_eq] at hw
    match line with
    | [c] =>
      have hsplit : w ++ crlf = [cr] ++ [lf, c] := hw
      have hends := (append_inj' hsplit rfl).2
      exact absurd hends (by simp [crlf, cr, lf])
    | b :: c :: line =>
      refine absurd ?_ hfirst
      have hboth : crlf <:+ crlf ++ (b :: c :: line) := ⟨w, hw⟩
      exact suffix_of_suffix_length_le hboth (suffix_append _ _) (Nat.le_add_left _ _)
  | [c] =>
    obtain ⟨w, hw⟩ := h
    have hsplit : (w ++ [cr]) ++ [lf, cr, lf] = (crlf ++ line) ++ [cr, lf, c] := by
      simpa [crlf] using hw
    have hends := (append_inj' hsplit rfl).2
    exact absurd hends (by simp [cr, lf])
  | b :: c :: after =>
    have hlater : crlf ++ b :: c :: after <:+ crlf ++ (line ++ crlf ++ b :: c :: after) :=
      ⟨crlf ++ line, by simp⟩
    exact suffix_of_suffix_length_le h hlater (Nat.le_add_left _ _)

theorem endsInEmptyLine_nil : ¬ EndsInEmptyLine [] := by
  intro h
  exact absurd h.length_le (by decide)

theorem parseHeaders_accepted {fuel : Nat} {rest : Bytes}
    {saw : Bool} (h : parseHeaders fuel rest request saw = (.complete, request'))
    (hread : HeadersRead request saw) (hends : EndsInEmptyLine rest) :
    ∃ lines new, rest = joinLines lines ++ crlf ∧ List.Forall₂ HeaderLine lines new ∧
      request'.headers = request.headers ++ new ∧ HeadersRead request' false ∧
      request'.method = request.method ∧ request'.rawTarget = request.rawTarget ∧
      request'.rawPath = request.rawPath ∧ request'.rawQuery = request.rawQuery ∧
      request'.hasQuery = request.hasQuery := by
  have hfinish : ∀ {request saw}, HeadersRead request saw →
      (finishHead request saw, request) = (HttpRequestParseStatus.complete, request') →
      request' = request ∧ HeadersRead request' false := by
    intro request saw hread heq
    obtain ⟨hstatus, rfl⟩ := Prod.mk.inj heq
    cases saw with
    | false => exact ⟨rfl, hread⟩
    | true =>
      unfold finishHead at hstatus
      split at hstatus
      · cases hstatus
      · split at hstatus
        · cases hstatus
        · exact absurd rfl ‹¬ true = true›
  induction fuel generalizing rest request saw with
  | zero => cases h
  | succ fuel ih =>
    rw [parseHeaders] at h
    split at h
    · rename_i hempty
      exact absurd (hempty ▸ hends) endsInEmptyLine_nil
    · split at h
      · cases h
      · rename_i after hfound
        split at h
        · cases h
        · rename_i hafter
          obtain ⟨rfl, hread'⟩ := hfinish hread h
          refine ⟨[], [], ?_, .nil, (append_nil _).symm, hread', rfl, rfl, rfl, rfl, rfl⟩
          exact (findCrlf_eq_some hfound).1.trans (by rw [not_not.1 hafter]; rfl)
      · rename_i line after hline hfound
        split at h
        · rename_i hparsed
          obtain ⟨rfl, -⟩ := Prod.mk.inj h
          exact absurd (congrArg Prod.fst hparsed) (parseHeader_not_complete _ _)
        · rename_i request₁ isTransferEncoding hparsed
          obtain ⟨hjoin, hfirst⟩ := findCrlf_eq_some hfound
          have hadded := parseHeader_accepted hparsed
          have hends' : EndsInEmptyLine after := by
            rw [hjoin] at hends
            exact hends.after (fun hnil => hline (by rw [hnil])) hfirst
          obtain ⟨header, hheader, hheaders⟩ := hadded.header
          obtain ⟨hmethod, htarget, hpath, hquery, hhas⟩ := hadded.target
          obtain ⟨lines, new, hrest, hlines, hnew, hread', hm, ht, hp, hq, hh⟩ :=
            ih h (hadded.read saw hread) hends'
          refine ⟨line :: lines, header :: new, ?_, .cons hheader hlines, ?_, hread',
            hm.trans hmethod, ht.trans htarget, hp.trans hpath, hq.trans hquery, hh.trans hhas⟩
          · rw [hjoin, hrest]
            exact (append_assoc _ _ _).symm
          · rw [hnew, hheaders, append_assoc, singleton_append]

theorem mem_headers {headers : List HttpHeaderView}
    (hlines : List.Forall₂ HeaderLine lines headers) {header : HttpHeaderView} (hmem : header ∈ headers) :
    ∃ line ∈ lines, HeaderLine line header := by
  induction hlines with
  | nil => cases hmem
  | cons hline hlines ih =>
    rcases mem_cons.1 hmem with rfl | hmem
    · exact ⟨_, mem_cons_self, hline⟩
    · obtain ⟨line, hmem, hline⟩ := ih hmem
      exact ⟨line, mem_cons_of_mem _ hmem, hline⟩

theorem mem_joinLines (hline : line ∈ lines) : line <:+: joinLines lines := by
  obtain ⟨before, after, rfl⟩ := append_of_mem hline
  simp [joinLines]

theorem views_infix {head : Bytes}
    (hhead : head = joinLines [methodText request.method ++ space :: (request.rawTarget ++
      space :: ascii "HTTP/1.1")] ++ joinLines lines ++ crlf)
    (hlines : List.Forall₂ HeaderLine lines request.headers) (htarget : RequestTarget request) :
    ∀ view ∈ request.views, view <:+: head := by
  have hinside : request.rawTarget <:+: head := by
    refine ⟨methodText request.method ++ [space], space :: ascii "HTTP/1.1" ++ crlf ++
      joinLines lines ++ crlf, ?_⟩
    rw [hhead]
    simp [joinLines]
  obtain ⟨path, hpath, -, hparts⟩ := htarget.parts
  intro view hview
  unfold HttpRequestHead.views at hview
  rcases mem_append.1 hview with hview | hview
  · rw [hpath] at hview
    have hquery : path <+: request.rawTarget ∧ request.rawQuery <:+ request.rawTarget := by
      rw [hparts]
      refine ⟨prefix_append _ _, ?_⟩
      split
      · exact ⟨path ++ [63], by simp⟩
      · exact suffix_append _ _
    rcases mem_cons.1 hview with rfl | hview
    · exact hinside
    rcases mem_cons.1 hview with rfl | hview
    · exact hquery.2.isInfix.trans hinside
    · obtain rfl := mem_singleton.1 hview
      exact hquery.1.isInfix.trans hinside
  · obtain ⟨header, hheader, hview⟩ := mem_flatMap.1 hview
    obtain ⟨line, hline, hshape⟩ := mem_headers hlines hheader
    have hinhead : line <:+: head := by
      refine (mem_joinLines hline).trans ⟨joinLines [_], crlf, hhead.symm⟩
    obtain ⟨before, after, hparts, -, -⟩ := hshape.shape
    refine IsInfix.trans ?_ hinhead
    rw [hparts]
    rcases mem_cons.1 hview with rfl | hview
    · exact (prefix_append _ _).isInfix
    · obtain rfl := mem_singleton.1 hview
      exact ⟨header.name ++ 58 :: before, after, by simp⟩

theorem endsHead_iff : endsHead buffer = true ↔ crlf ++ crlf <:+ buffer := by
  unfold endsHead
  rw [decide_eq_true_iff]
  constructor
  · intro h
    have hend : buffer.drop (buffer.length - 4) = crlf ++ crlf := h.2
    exact hend ▸ drop_suffix _ _
  · intro h
    exact ⟨h.length_le, (suffix_iff_eq_drop.1 h).symm⟩

theorem parseCompleteHead_accepted (h : parseCompleteHead buffer {} = (.complete, request))
    (hends : endsHead buffer = true) (hnul : 0 ∉ buffer) : RequestHead buffer request := by
  unfold parseCompleteHead at h
  split at h
  · cases h
  rename_i line rest hfound
  split at h
  · cases h
  rename_i hline
  obtain ⟨hjoin, hfirst⟩ := findCrlf_eq_some hfound
  split at h
  · rename_i hparsed
    obtain ⟨rfl, -⟩ := Prod.mk.inj h
    exact absurd (congrArg Prod.fst hparsed) (parseRequestLine_not_complete _ _)
  rename_i request₁ hparsed
  obtain ⟨hrequestLine, htarget, hheaders, hpresent⟩ := parseRequestLine_accepted hparsed
  have hrest : EndsInEmptyLine rest := by
    have hbuffer : EndsInEmptyLine buffer := (endsHead_iff.1 hends).trans (suffix_append _ _)
    rw [hjoin] at hbuffer
    exact hbuffer.after hline hfirst
  have hstart : HeadersRead request₁ false := by
    refine ⟨?_, fun header hheader => ?_, fun hhas => ?_, fun _ header hheader => ?_⟩
    · rw [hheaders]
      exact Nat.zero_le _
    · rw [hheaders] at hheader
      cases hheader
    · rw [hpresent] at hhas
      cases hhas
    · rw [hheaders] at hheader
      cases hheader
  obtain ⟨lines, new, hlines, hread, hnew, hfinal, hm, ht, hp, hq, hh⟩ :=
    parseHeaders_accepted h hstart hrest
  rw [hheaders] at hnew
  have hshape : buffer = joinLines [methodText request.method ++ space :: (request.rawTarget ++
      space :: ascii "HTTP/1.1")] ++ joinLines lines ++ crlf := by
    rw [hjoin, hrequestLine, hlines, hm, ht]
    simp [joinLines]
  have htarget' : RequestTarget request := by
    obtain ⟨hfirst, hlength, hcharacters, hparts, hquery⟩ := htarget
    rw [← ht] at hfirst hlength hcharacters hparts
    rw [← hp, ← hh, ← hq] at hparts
    rw [← hh, ← hq] at hquery
    exact ⟨hfirst, hlength, hcharacters, hparts, hquery⟩
  have hread' : List.Forall₂ HeaderLine lines request.headers := by
    rw [hnew]
    exact hread
  have hviews := views_infix hshape hread' htarget'
  refine ⟨⟨lines, hshape, hread'⟩, htarget', hfinal, fun header hheader c hc => ⟨?_, ?_⟩, hviews⟩
  · obtain ⟨line, -, hline⟩ := mem_headers hread' hheader
    exact hline.name c hc
  · rintro rfl
    have hview : header.name ∈ request.views :=
      mem_append_right _ (mem_flatMap.2 ⟨header, hheader, mem_cons_self⟩)
    exact hnul ((hviews _ hview).subset hc)

/-! ### The stream in pieces -/

namespace HttpRequestParser

/-- `Feed` on one piece after another, with the bytes consumed in all. -/
def feedAll : HttpRequestParser → List Bytes → Nat × HttpRequestParser
  | p, [] => (0, p)
  | p, chunk :: chunks =>
    let (consumed, p) := p.feed chunk
    let (more, p) := feedAll p chunks
    (consumed + more, p)

variable {p : HttpRequestParser} {data : Bytes}

theorem feedAll_done (hdone : p.status ≠ .needMoreData) (chunks : List Bytes) : p.feedAll chunks = (0, p) := by
  induction chunks with
  | nil => rfl
  | cons chunk chunks ih =>
    rw [feedAll, feed, if_pos hdone]
    dsimp only
    rw [ih]
    rfl

theorem feedLoop_room (hlength : p.buffer.length ≤ p.maximumHeaderBytes)
    (hwants : (p.feedLoop data).2.status = .needMoreData) :
    (p.feedLoop data).2.buffer.length < (p.feedLoop data).2.maximumHeaderBytes := by
  induction data generalizing p with
  | nil =>
    rw [feedLoop] at hwants ⊢
    split at hwants
    · cases hwants
    · rename_i hroom
      rw [if_neg hroom]
      exact Nat.lt_of_le_of_ne hlength hroom
  | cons value rest ih =>
    rw [feedLoop] at hwants ⊢
    split at hwants
    · cases hwants
    rename_i hroom
    split at hwants
    · cases hwants
    rename_i hvalue
    split at hwants
    · cases hwants
    rename_i hending
    split at hwants
    · exact absurd hwants (completeHead_status _)
    rename_i hends
    rw [if_neg hroom, if_neg hvalue, if_neg hending, if_neg hends]
    refine ih ?_ hwants
    show (p.buffer ++ [value]).length ≤ p.maximumHeaderBytes
    rw [length_append]
    exact Nat.lt_of_not_le hroom

theorem feedLoop_append_done (hstatus : p.status = .needMoreData)
    {first : Bytes} (hdone : (p.feedLoop first).2.status ≠ .needMoreData) (second : Bytes) :
    p.feedLoop (first ++ second) = p.feedLoop first := by
  induction first generalizing p with
  | nil =>
    rw [feedLoop] at hdone
    split at hdone
    · rename_i hfull
      cases second with
      | nil => rfl
      | cons value rest => rw [nil_append, feedLoop, feedLoop, if_pos hfull, if_pos hfull.ge]
    · exact absurd hstatus hdone
  | cons value rest ih =>
    rw [cons_append, feedLoop, feedLoop]
    split
    · rfl
    rename_i hroom
    split
    · rfl
    rename_i hvalue
    split
    · rfl
    rename_i hending
    split
    · rfl
    rename_i hends
    rw [feedLoop, if_neg hroom, if_neg hvalue, if_neg hending, if_neg hends] at hdone
    rw [ih (p := p.push value) hstatus hdone]

theorem feedAll_flatten (hstatus : p.status = .needMoreData)
    (hroom : p.buffer.length < p.maximumHeaderBytes) (chunks : List Bytes) :
    p.feedAll chunks = p.feed chunks.flatten := by
  have hfeed : ∀ data, p.feed data = p.feedLoop data := fun data => if_neg (not_not.2 hstatus)
  induction chunks generalizing p with
  | nil =>
    rw [hfeed, flatten_nil, feedLoop, if_neg (Nat.ne_of_lt hroom)]
    rfl
  | cons chunk chunks ih =>
    rw [feedAll, hfeed, hfeed, flatten_cons]
    dsimp only
    by_cases hwants : (p.feedLoop chunk).2.status = .needMoreData
    · have hfeed' : ∀ data, (p.feedLoop chunk).2.feed data = (p.feedLoop chunk).2.feedLoop data :=
        fun data => if_neg (not_not.2 hwants)
      rw [ih hwants (feedLoop_room hroom.le hwants) hfeed', feedLoop_append hwants, hfeed']
    · rw [feedAll_done hwants, feedLoop_append_done hstatus hwants]
      rfl

/-- A head that is complete is what has been collected, within the bound and without NUL. -/
structure Collected (p p' : HttpRequestParser) : Prop where
  maximum : p'.maximumHeaderBytes = p.maximumHeaderBytes
  length : p'.buffer.length ≤ p.maximumHeaderBytes
  ends : endsHead p'.buffer = true
  clean : 0 ∉ p'.buffer
  parsed : parseCompleteHead p'.buffer p.request = (.complete, p'.request)

theorem feedLoop_complete (hclean : 0 ∉ p.buffer) (hstatus : p.status = .needMoreData)
    (hcomplete : (p.feedLoop data).2.status = .complete) : Collected p (p.feedLoop data).2 := by
  induction data generalizing p with
  | nil =>
    rw [feedLoop] at hcomplete
    split at hcomplete
    · cases hcomplete
    · rw [hstatus] at hcomplete
      cases hcomplete
  | cons value rest ih =>
    rw [feedLoop] at hcomplete ⊢
    split at hcomplete
    · cases hcomplete
    rename_i hroom
    split at hcomplete
    · cases hcomplete
    rename_i hvalue
    split at hcomplete
    · cases hcomplete
    rename_i hending
    have hpushed : 0 ∉ (p.push value).buffer := by
      intro hmem
      rcases mem_append.1 hmem with hmem | hmem
      · exact hclean hmem
      · exact hvalue (mem_singleton.1 hmem).symm
    rw [if_neg hroom, if_neg hvalue, if_neg hending]
    split at hcomplete
    · rename_i hends
      rw [if_pos hends]
      refine ⟨rfl, ?_, hends, hpushed, Prod.ext hcomplete rfl⟩
      show (p.buffer ++ [value]).length ≤ p.maximumHeaderBytes
      rw [length_append]
      exact Nat.lt_of_not_le hroom
    · rename_i hends
      rw [if_neg hends]
      obtain ⟨hmaximum, hlength, hends', hclean', hparsed⟩ := ih hpushed hstatus hcomplete
      exact ⟨hmaximum, hlength, hends', hclean', hparsed⟩

theorem init_fresh (maximum : Nat) : (init maximum).status = .needMoreData ∧
    (init maximum).buffer = [] ∧ (init maximum).request = {} := by
  unfold init
  split
  · exact ⟨rfl, rfl, rfl⟩
  · exact ⟨rfl, rfl, rfl⟩

/-- What the parser reports of a stream does not depend on the pieces it comes in, and a request it
reports is read off a head of the grammar that it has taken from the stream. -/
theorem feedAll_strict (maximum : Nat) (chunks : List Bytes) :
    (init maximum).feedAll chunks = (init maximum).feed chunks.flatten ∧
      ∀ consumed p, (init maximum).feedAll chunks = (consumed, p) → p.status = .complete →
        p.buffer = chunks.flatten.take consumed ∧ consumed = p.buffer.length ∧
          p.buffer.length ≤ (init maximum).maximumHeaderBytes ∧ RequestHead p.buffer p.request := by
  obtain ⟨hstatus, hbuffer, hrequest⟩ := init_fresh maximum
  have hroom : (init maximum).buffer.length < (init maximum).maximumHeaderBytes := by
    rw [hbuffer]
    exact (init maximum).maximum_bounds.1
  have hwhole := feedAll_flatten hstatus hroom chunks
  refine ⟨hwhole, fun consumed p hfed hcomplete => ?_⟩
  have hloop : (init maximum).feedLoop chunks.flatten = (consumed, p) := by
    rw [← hfed, hwhole, feed, if_neg (not_not.2 hstatus)]
  have hspec := feedLoop_spec hstatus chunks.flatten
  have hcollected : Collected (init maximum) ((init maximum).feedLoop chunks.flatten).2 :=
    feedLoop_complete (by rw [hbuffer]; exact not_mem_nil) hstatus (by rw [hloop]; exact hcomplete)
  rw [hloop] at hspec hcollected
  have htaken : p.buffer = chunks.flatten.take consumed := by
    rw [hspec.buffer, hbuffer, nil_append]
  have hparsed := hcollected.parsed
  rw [hrequest] at hparsed
  refine ⟨htaken, ?_, hcollected.length,
    parseCompleteHead_accepted hparsed hcollected.ends hcollected.clean⟩
  rw [htaken, length_take]
  exact (Nat.min_eq_left hspec.bounded).symm

/-- A request in three pieces, with the start of its body. -/
def requestPieces : List Bytes :=
  [ascii "PUT /a?b HT", ascii "TP/1.1\r\nContent-Length: 4 \r", ascii "\n\r\nbody"]

theorem feedAll_strict_requestPieces :
    ∃ p, (init 64).feedAll requestPieces = (41, p) ∧ RequestHead p.buffer p.request ∧
      p.request.contentLength = 4 := by
  have hcomplete : ((init 64).feedAll requestPieces).2.status = .complete := by decide
  refine ⟨_, Prod.ext (by decide) rfl, ?_, by decide⟩
  exact ((feedAll_strict 64 requestPieces).2 _ _ (Prod.eta _).symm hcomplete).2.2.2

end HttpRequestParser

end Bmx.Remote
