import CordactylBot.Dpp.HttpsClient.Framing

/-!
Responses as a server writes them, and what the client makes of one.

* `ResponseHead` — a status line and headers the client accepts, and announce a body.
* `ResponseHead.ofFields` — a head written from a code and named values.
* `drain_chunked`, `drain_counted` — the whole response is read back.
* `chunked_firm`, `counted_firm` — nothing stops the client before its end.
-/

open Incremental Dpp

namespace HttpsClient

/-! ### Heads -/

/-- The head of a response with a body. -/
structure ResponseHead where
  text : List Char
  alone : breakOn headersEnd (text ++ headersEnd) = some (text, [])
  code : Int
  headers : List (List Char × List Char)
  parsed : parseHead text = some (code, headers)
  contentLength : UInt64
  length : readLength headers = some contentLength
  nonempty : contentLength ≠ 0
  bodied : 200 ≤ UInt16.ofInt code ∧ UInt16.ofInt code ≠ 204 ∧ UInt16.ofInt code ≠ 304

namespace ResponseHead

variable (head : ResponseHead)

def status : UInt16 := UInt16.ofInt head.code

/-- What the handler is called with when the body is there. -/
def completion (data : List Char) : RestCompletion :=
  result { timeout := 0, status := head.status, responseHeaders := head.headers, body := data }

/-- The client that has read the head. -/
def taken (c : HttpsClient) : HttpsClient :=
  { c with
    timeout := c.timeout + 10
    responseHeaders := head.headers
    contentLength := head.contentLength
    status := head.status
    chunked := readChunked head.headers
    chunkSize := if readChunked head.headers then 0 else c.chunkSize
    chunkReceive := if readChunked head.headers then 0 else c.chunkReceive
    state := if readChunked head.headers then .chunkLen else .content }

end ResponseHead

/-! ### A head as a server writes it -/

/-- A header. -/
structure Field where
  name : List Char
  value : List Char
  plainName : ∀ c ∈ name, c ≠ ':' ∧ c ∉ crlf
  plainValue : ∀ c ∈ value, c ∉ crlf

def Field.line (field : Field) : List Char :=
  field.name ++ ([':', ' '] ++ field.value)

def Field.entry (field : Field) : List Char × List Char :=
  (field.name.map Char.toLower, field.value)

theorem readHeader_line (field : Field) : readHeader field.line = some field.entry := by
  rw [readHeader, Field.line, breakOn_of_notMem fun h => (field.plainName _ h).1 rfl]
  rfl

def httpVersion : List Char := "HTTP/1.1".toList

def statusLine (code : Nat) (reason : List Char) : List Char :=
  httpVersion ++ ([' '] ++ (Nat.toDigits 10 code ++ ([' '] ++ reason)))

def headText (code : Nat) (reason : List Char) (fields : List Field) : List Char :=
  joined crlf (statusLine code reason :: fields.map Field.line)

/-- The digits of a number: no blank, and no end of a line. -/
theorem toDigits_plain (code : Nat) : Nat.toDigits 10 code ≠ [] ∧
    ∀ c ∈ Nat.toDigits 10 code, c ≠ ' ' ∧ c ∉ crlf := by
  obtain ⟨ds, hds, hlt, htext, -⟩ := Numeral.exists_digits (by decide : 1 < 10) code
  rw [htext]
  refine ⟨by simpa using hds, fun c hc => ?_⟩
  obtain ⟨d, hd, rfl⟩ := List.mem_map.mp hc
  have plain : ∀ d < 10, d.digitChar ≠ ' ' ∧ d.digitChar ∉ crlf := by decide
  exact plain d (hlt d hd)

theorem version_plain : httpVersion ≠ [] ∧ ∀ c ∈ httpVersion, c ≠ ' ' ∧ c ∉ crlf := by
  have plain : "HTTP/1.1".toList ≠ [] ∧ ∀ c ∈ "HTTP/1.1".toList, c ≠ ' ' ∧ c ∉ crlf := by
    simp [crlf]
  exact plain

theorem tokenize_statusLine (code : Nat) (reason : List Char) :
    ∃ more, tokenize [' '] (statusLine code reason) =
      httpVersion :: Nat.toDigits 10 code :: more := by
  obtain ⟨hne, hplain⟩ := toDigits_plain code
  obtain ⟨n, hn⟩ : ∃ n, (statusLine code reason).length = n + 2 :=
    ⟨httpVersion.length + (Nat.toDigits 10 code).length + reason.length, by
      simp only [statusLine, List.length_append, List.length_cons, List.length_nil]
      omega⟩
  refine ⟨tokenize.go [' '] n reason, ?_⟩
  rw [tokenize, hn, statusLine,
    go_token version_plain.1 fun c hc => by simpa using (version_plain.2 c hc).1,
    go_token hne fun c hc => by simpa using (hplain c hc).1]

theorem lines_plain {code : Nat} {reason : List Char} (hreason : ∀ c ∈ reason, c ∉ crlf)
    (fields : List Field) : ∀ line ∈ statusLine code reason :: fields.map Field.line,
      line ≠ [] ∧ ∀ c ∈ line, c ∉ crlf := by
  intro line hline
  rcases List.mem_cons.mp hline with rfl | hline
  · refine ⟨List.append_ne_nil_of_left_ne_nil version_plain.1 _, fun c hc => ?_⟩
    have hblank : ∀ c ∈ [' '], c ∉ crlf := by simp [crlf]
    simp only [statusLine, List.mem_append] at hc
    rcases hc with hc | hc | hc | hc | hc
    · exact (version_plain.2 c hc).2
    · exact hblank c hc
    · exact ((toDigits_plain code).2 c hc).2
    · exact hblank c hc
    · exact hreason c hc
  · obtain ⟨field, -, rfl⟩ := List.mem_map.mp hline
    refine ⟨by simp [Field.line], fun c hc => ?_⟩
    have hcolon : ∀ c ∈ [':', ' '], c ∉ crlf := by simp [crlf]
    simp only [Field.line, List.mem_append] at hc
    rcases hc with hc | hc | hc
    · exact (field.plainName c hc).2
    · exact hcolon c hc
    · exact field.plainValue c hc

/-- **A written head is read back.** -/
theorem parseHead_headText {code : Nat} (hcode : code ≠ 0) {reason : List Char}
    (hreason : ∀ c ∈ reason, c ∉ crlf) (fields : List Field) :
    parseHead (headText code reason fields) = some ((code : Int), fields.map Field.entry) := by
  obtain ⟨more, hstatus⟩ := tokenize_statusLine code reason
  have hlines : tokenize crlf (headText code reason fields) =
      statusLine code reason :: fields.map Field.line :=
    tokenize_joined (lines_plain hreason fields)
  have hatoi : atoi (Nat.toDigits 10 code) = (code : Int) := by
    have := @scanInteger_toDigits 10 (by decide) (by decide) code [] (by simp)
    rw [List.append_nil] at this
    rw [atoi, this, Option.getD_some]
  have hfields : (fields.map Field.line).filterMap readHeader = fields.map Field.entry := by
    rw [List.filterMap_map, ← List.filterMap_eq_map]
    exact List.filterMap_congr fun field _ => readHeader_line field
  simp only [parseHead, hlines, hstatus, hatoi, hfields]
  exact if_pos ⟨.inl rfl, by simpa using hcode⟩

theorem breakOn_line {x : Char} (hx : x ≠ '\r') (xs : List Char) :
    breakOn headersEnd (crlf ++ x :: xs) =
      (breakOn headersEnd (x :: xs)).map fun (first, after) => (crlf ++ first, after) := by
  have hne : ('\r' == x) = false := by simpa using hx.symm
  simp only [crlf, headersEnd, List.cons_append, List.nil_append]
  rw [breakOn, if_neg (by simp [List.isPrefixOf, hne]), breakOn, if_neg (by simp [List.isPrefixOf]),
    Option.map_map]
  rfl

/-- The head ends where its lines end. -/
theorem breakOn_joined {lines : List (List Char)}
    (h : ∀ line ∈ lines, line ≠ [] ∧ ∀ c ∈ line, c ∉ crlf) (more : List Char) :
    breakOn headersEnd (joined crlf lines ++ (headersEnd ++ more)) =
      some (joined crlf lines, more) := by
  have hcr : ∀ line ∈ lines, '\r' ∉ line := fun line hline hmem =>
    (h line hline).2 '\r' hmem (by decide)
  induction lines with
  | nil => exact breakOn_self _ _ more
  | cons line lines ih =>
    have hline := hcr line List.mem_cons_self
    cases lines with
    | nil => exact breakOn_of_notMem hline more
    | cons next lines =>
      have htail := ih (fun l hl => h l (List.mem_cons_of_mem _ hl))
        fun l hl => hcr l (List.mem_cons_of_mem _ hl)
      obtain ⟨x, xs, hnext⟩ : ∃ x xs, joined crlf (next :: lines) = x :: xs ∧ x ≠ '\r' := by
        obtain ⟨x, xs, rfl⟩ := List.exists_cons_of_ne_nil (h next (by simp)).1
        have hx : x ≠ '\r' := fun hx => hcr (x :: xs) (by simp) (by simp [hx])
        cases lines with
        | nil => exact ⟨x, xs, rfl, hx⟩
        | cons l ls => exact ⟨x, _, rfl, hx⟩
      rw [hnext.1, List.cons_append] at htail
      rw [joined.eq_3 _ _ _ (by simp), List.append_assoc, List.append_assoc, headersEnd,
        breakOn_append_of_notMem hline, ← headersEnd, hnext.1, List.cons_append,
        breakOn_line hnext.2, htail]
      rfl

/-- The head a server writes for a body of a known or an unknown length. -/
def ResponseHead.ofFields (code : Nat) (reason : List Char) (hreason : ∀ c ∈ reason, c ∉ crlf)
    (fields : List Field) (contentLength : UInt64)
    (length : readLength (fields.map Field.entry) = some contentLength)
    (nonempty : contentLength ≠ 0)
    (bodied : 200 ≤ UInt16.ofInt code ∧ UInt16.ofInt code ≠ 204 ∧ UInt16.ofInt code ≠ 304) :
    ResponseHead where
  text := headText code reason fields
  alone := by
    have := breakOn_joined (@lines_plain code reason hreason fields) []
    rwa [List.append_nil] at this
  code := code
  headers := fields.map Field.entry
  parsed := by
    refine parseHead_headText ?_ hreason fields
    rintro rfl
    exact absurd bodied.1 (by decide)
  contentLength := contentLength
  length := length
  nonempty := nonempty
  bodied := bodied

/-! ### The client behind the head -/

/-- A client that has been read nothing. -/
structure Fresh (c : HttpsClient) : Prop where
  state : c.state = .headers
  body : c.body = []
  responseHeaders : c.responseHeaders = []
  timedOut : c.timedOut = false
  pending : c.pending = true
  completions : c.completions = []

/-- A client that can be read. -/
def opened (timeout : Nat) : HttpsClient :=
  { timeout, tcpConnectDone := true, connected := true }

theorem fresh_opened (timeout : Nat) : Fresh (opened timeout) :=
  ⟨rfl, rfl, rfl, rfl, rfl, rfl⟩

theorem readHead_eq {c : HttpsClient} (h : Fresh c) (head : ResponseHead) :
    ∃ c₁, c.extended.readHead head.text = (c₁, true) ∧ ¬ c₁.bodiless ∧
      c₁.chunked = readChunked head.headers ∧
      (readChunked head.headers = true → c₁ = head.taken c) ∧
      (readChunked head.headers = false → c₁.enter .content = head.taken c) := by
  have hheaders : c.extended.responseHeaders ++ head.headers = head.headers := by
    simp [extended, h.responseHeaders]
  obtain ⟨hlow, h204, h304⟩ := head.bodied
  have hbody : ∀ c₁ : HttpsClient, c₁.status = head.status →
      c₁.contentLength = head.contentLength → ¬ c₁.bodiless := by
    intro c₁ hstatus hlength hb
    rw [bodiless, hstatus, hlength] at hb
    rcases hb with hb | hb | hb | hb
    · exact h204 hb
    · exact absurd hlow (UInt16.not_le.mpr hb)
    · exact h304 hb
    · exact head.nonempty hb
  cases hchunked : readChunked head.headers with
  | false =>
    refine ⟨{ head.taken c with state := c.state }, ?_, hbody _ rfl rfl, hchunked, by simp,
      fun _ => by simp [ResponseHead.taken, enter, hchunked]⟩
    simp only [readHead, head.parsed, hheaders, head.length, hchunked, ResponseHead.taken]
    rfl
  | true =>
    refine ⟨head.taken c, ?_, hbody _ rfl rfl, hchunked, fun _ => rfl, by simp⟩
    simp only [readHead, head.parsed, hheaders, head.length, hchunked, ResponseHead.taken]
    rfl

theorem breakOn_head (head : ResponseHead) (more : List Char) :
    breakOn headersEnd (head.text ++ headersEnd ++ more) = some (head.text, more) := by
  simpa using breakOn_append more head.alone

/-- The head is taken off the input. -/
theorem drain_head {c : HttpsClient} (h : Fresh c) (head : ResponseHead) (more : List Char) :
    reader.drain c (head.text ++ headersEnd ++ more) = reader.drain (head.taken c) more := by
  obtain ⟨c₁, hread, hbody, hchunked, htrue, hfalse⟩ := readHead_eq h head
  have hbreak := breakOn_head head more
  cases hc : readChunked head.headers with
  | false =>
    rw [drain_again (.counted h.state hbreak hread hbody (hchunked.trans hc)), hfalse hc]
  | true =>
    rw [← htrue hc]
    have hchunking : c₁.chunked = true := hchunked.trans hc
    cases more with
    | nil =>
      have later : Turned c₁ [] (.wait c₁ []) := .lengthLater (readHead_chunked hread hchunking) rfl
      rw [drain_wait (.chunksLater h.state hbreak hread hbody hchunking), drain_wait later]
    | cons b bs =>
      exact drain_again (.chunks h.state hbreak hread hbody hchunking (by simp))

/-- Before the head is there in full, the client waits for the rest of it. -/
theorem drain_part_of_head {c : HttpsClient} (h : Fresh c) (head : ResponseHead)
    {part missing : List Char} (hpart : part ++ missing = head.text ++ headersEnd)
    (hmissing : missing ≠ []) : reader.drain c part = .waiting c part := by
  have hnone : breakOn headersEnd part = none := by
    cases hbreak : breakOn headersEnd part with
    | none => rfl
    | some parts =>
      obtain ⟨before, after⟩ := parts
      have whole := breakOn_append missing hbreak
      rw [hpart, head.alone] at whole
      cases Prod.mk.inj (Option.some.inj whole) with
      | intro _ hafter => exact absurd (List.append_eq_nil_iff.mp hafter.symm).2 hmissing
  exact drain_wait (.headLater h.state hnone)

/-- Input that starts like a response either lacks some of its head or goes beyond it. -/
theorem head_cases (head : ResponseHead) {part rest tail : List Char}
    (h : part ++ rest = head.text ++ headersEnd ++ tail) :
    (∃ missing, missing ≠ [] ∧ part ++ missing = head.text ++ headersEnd) ∨
      ∃ more, part = head.text ++ headersEnd ++ more ∧ more ++ rest = tail := by
  rcases List.append_eq_append_iff.mp h with ⟨missing, hmissing, -⟩ | ⟨more, hpart, htail⟩
  · cases missing with
    | nil => exact .inr ⟨[], by simpa using hmissing.symm, by simpa [hmissing] using h⟩
    | cons m ms => exact .inl ⟨m :: ms, by simp, hmissing.symm⟩
  · exact .inr ⟨more, hpart, htail.symm⟩

/-! ### The whole response -/

/-- A client that is through with a response. -/
theorem finished_completions {c : HttpsClient} (hpending : c.pending = true) :
    c.finished.completions = c.completions ++ [c.result] := by
  simp [finished, close, complete, enter, hpending]

theorem result_of_grows {c c' : HttpsClient} {head : ResponseHead} (h : Fresh c)
    (hgrows : Grows (head.taken c) c') : c'.result = head.completion c'.body := by
  have htimed : c'.timedOut = false := hgrows.timedOut.trans h.timedOut
  have hstatus : c'.status = head.status := hgrows.status
  have hheaders : c'.responseHeaders = head.headers := hgrows.responseHeaders
  simp [ResponseHead.completion, result, getHeader, htimed, hstatus, hheaders]

theorem completions_of_grows {c c' : HttpsClient} {head : ResponseHead} (h : Fresh c)
    (hgrows : Grows (head.taken c) c') :
    c'.finished.completions = [head.completion c'.body] := by
  rw [finished_completions (hgrows.pending.trans h.pending), result_of_grows h hgrows,
    hgrows.completions, ResponseHead.taken, h.completions, List.nil_append]

/-- **A response in chunks is read back**, whatever stands behind it. -/
theorem drain_chunked {c : HttpsClient} (h : Fresh c) (head : ResponseHead)
    (hchunked : readChunked head.headers = true) (chunks : List Chunk) (last : LastChunk)
    (more : List Char) :
    ∃ c', reader.drain c (head.text ++ headersEnd ++ (chunkedText chunks last ++ more)) =
        .stopped c' ∧ c'.completions = [head.completion (chunks.flatMap Chunk.data)] := by
  have hstate : (head.taken c).state = .chunkLen := by simp [ResponseHead.taken, hchunked]
  obtain ⟨c', hgrows, hin, hbody, hdrain⟩ := drain_chunks hstate chunks last
  refine ⟨c'.finished, ?_, ?_⟩
  · rw [drain_head h]
    exact chunking_firm (.inl hstate) hdrain more
  · rw [completions_of_grows h hgrows, hbody, ResponseHead.taken, h.body, List.nil_append]

/-- **A response of announced length is read back.** -/
theorem drain_counted {c : HttpsClient} (h : Fresh c) (head : ResponseHead)
    (hchunked : readChunked head.headers = false) {data : List Char}
    (hdata : data.length = head.contentLength.toNat) :
    ∃ c', reader.drain c (head.text ++ headersEnd ++ data) = .stopped c' ∧
      c'.completions = [head.completion data] := by
  have hstate : (head.taken c).state = .content := by simp [ResponseHead.taken, hchunked]
  have hbody : (head.taken c).body = [] := h.body
  have whole : Turned (head.taken c) data (.stop ((head.taken c).appended data).finished) := by
    refine .content hstate (.inr ?_)
    rw [hbody, List.nil_append, hdata]
    exact le_refl head.contentLength.toNat
  refine ⟨((head.taken c).appended data).finished, ?_, ?_⟩
  · rw [drain_head h, drain_stop whole]
  · rw [completions_of_grows h (grows_appended _ data), appended, hbody, List.nil_append]

/-- What stops the client in front of or behind the end of a chunked response stops it for good. -/
theorem chunked_firm {c : HttpsClient} (h : Fresh c) (head : ResponseHead)
    (hchunked : readChunked head.headers = true) {tail part rest : List Char} {t : HttpsClient}
    (hpart : part ++ rest <+: head.text ++ headersEnd ++ tail)
    (hstop : reader.drain c part = .stopped t) : reader.drain c (part ++ rest) = .stopped t := by
  have hstate : (head.taken c).state = .chunkLen := by simp [ResponseHead.taken, hchunked]
  obtain ⟨behind, hpart⟩ := hpart
  rw [List.append_assoc] at hpart
  rcases head_cases head hpart with ⟨missing, hmissing, hsum⟩ | ⟨more, rfl, -⟩
  · rw [drain_part_of_head h head hsum hmissing] at hstop
    cases hstop
  · rw [List.append_assoc, drain_head h]
    rw [drain_head h] at hstop
    exact chunking_firm (.inl hstate) hstop rest

/-- A response of announced length does not stop the client before its end. -/
theorem drain_part_of_counted {c : HttpsClient} (h : Fresh c) (head : ResponseHead)
    (hchunked : readChunked head.headers = false) (known : head.contentLength ≠ unknownLength)
    {data : List Char} (hdata : data.length < head.contentLength.toNat) :
    reader.drain c (head.text ++ headersEnd ++ data) =
      .waiting ((head.taken c).appended data) [] := by
  have hstate : (head.taken c).state = .content := by simp [ResponseHead.taken, hchunked]
  have hbody : (head.taken c).body = [] := h.body
  rw [drain_head h]
  refine drain_wait (.contentPart hstate ?_)
  rw [hbody, List.nil_append]
  rintro (hunknown | hwhole)
  · exact known hunknown
  · exact absurd hwhole (Nat.not_le.mpr hdata)

theorem counted_firm {c : HttpsClient} (h : Fresh c) (head : ResponseHead)
    (hchunked : readChunked head.headers = false) (known : head.contentLength ≠ unknownLength)
    {data part rest : List Char} (hdata : data.length ≤ head.contentLength.toNat) {t : HttpsClient}
    (hpart : part ++ rest <+: head.text ++ headersEnd ++ data)
    (hstop : reader.drain c part = .stopped t) : reader.drain c (part ++ rest) = .stopped t := by
  obtain ⟨behind, hpart⟩ := hpart
  rw [List.append_assoc] at hpart
  rcases head_cases head hpart with ⟨missing, hmissing, hsum⟩ | ⟨more, rfl, hmore⟩
  · rw [drain_part_of_head h head hsum hmissing] at hstop
    cases hstop
  · cases rest with
    | nil => rwa [List.append_nil]
    | cons b bs =>
      have hlt : more.length < head.contentLength.toNat := by
        have := congrArg List.length hmore
        simp only [List.length_append, List.length_cons] at this
        omega
      rw [drain_part_of_counted h head hchunked known hlt] at hstop
      cases hstop

end HttpsClient
