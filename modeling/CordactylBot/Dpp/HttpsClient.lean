import CordactylBot.Dpp.Rest
import CordactylBot.Dpp.Strings
import CordactylBot.Library.Transition

/-!
The client of one HTTP request (`httpsclient.cpp`).

The socket hands the client what it has read so far and not used (`handle_buffer`), the
client takes the status line and the headers, then a body that is as long as
`content-length` says, or one in chunks. It completes once: when the body is there, when
the connection ends, or when a tick of its timer finds that its time is up. What it
completes with is put together by the callback of `http_request::run`.

`handleBuffer` is one turn of the loop of `handle_buffer`; `reader` is the loop. An open
connection is a waiting reader with the bytes the loop left in its buffer, a closed one is
a stopped reader.
-/

open Incremental Dpp

/-- `dpp::http_state`. -/
inductive HttpState where
  | headers | content | done | chunkLen | chunkTrailer | chunkLast | chunkContent
deriving DecidableEq, Repr

/-- `dpp::http_request_completion_t` with the figures a request queue reads. -/
structure RestCompletion extends HttpRequestCompletion where
  ratelimitLimit : UInt64 := 0
  ratelimitRemaining : UInt64 := 0
  ratelimitResetAfter : UInt64 := 0
  ratelimitRetryAfter : UInt64 := 0
  ratelimitGlobal : Bool := false
deriving DecidableEq, Repr

/-- `dpp::https_client`. `pending` says that the completion handler is still set, and
`completions` lists what it was called with. -/
structure HttpsClient where
  state : HttpState := .headers
  body : List Char := []
  contentLength : UInt64 := 0
  status : UInt16 := 0
  timeout : Nat
  chunked : Bool := false
  chunkSize : Nat := 0
  chunkReceive : Nat := 0
  /-- in the order they came; the map finds the first one of a name -/
  responseHeaders : List (List Char × List Char) := []
  timedOut : Bool := false
  tcpConnectDone : Bool := false
  connected : Bool := false
  pending : Bool := true
  completions : List RestCompletion := []
deriving DecidableEq, Repr

namespace HttpsClient

/-- `ULLONG_MAX`, the content length when no header gives one. -/
def unknownLength : UInt64 := UInt64.ofNat (2 ^ 64 - 1)

def headersEnd : List Char := ['\r', '\n', '\r', '\n']

/-- `get_header`. -/
def getHeader (c : HttpsClient) (name : String) : List Char :=
  (c.responseHeaders.lookup (name.toList.map Char.toLower)).getD []

/-- `populate_result` on the error the callback of `http_request::run` finds. -/
def result (c : HttpsClient) : RestCompletion where
  status := c.status
  error := if c.timedOut then .connection else if c.status < 100 then .connection else .success
  body := String.ofList c.body
  ratelimitLimit := fromString (c.getHeader "x-ratelimit-limit")
  ratelimitRemaining := fromString (c.getHeader "x-ratelimit-remaining")
  ratelimitResetAfter := fromString (c.getHeader "x-ratelimit-reset-after")
  ratelimitRetryAfter :=
    if c.getHeader "x-ratelimit-retry-after" ≠ [] then
      fromString (c.getHeader "x-ratelimit-retry-after")
    else 0
  ratelimitGlobal := c.getHeader "x-ratelimit-global" = "true".toList

/-- `if (completed) { completed(this); completed = {}; }` -/
def complete (c : HttpsClient) : HttpsClient :=
  if c.pending then { c with pending := false, completions := c.completions ++ [c.result] } else c

/-- `https_client::close`. -/
def close (c : HttpsClient) : HttpsClient :=
  { (if c.state ≠ .done then c.complete else c) with
    state := .done, connected := false, tcpConnectDone := false }

/-- `state = …`. -/
def enter (c : HttpsClient) (state : HttpState) : HttpsClient :=
  { c with state }

/-- The end of the body: complete, and close. -/
def finished (c : HttpsClient) : HttpsClient :=
  (c.complete.enter .done).close

/-- `body += buffer`. -/
def appended (c : HttpsClient) (bytes : List Char) : HttpsClient :=
  { c with body := c.body ++ bytes }

/-- The time to receive the body, from the end of the head on. -/
def extended (c : HttpsClient) : HttpsClient :=
  { c with timeout := c.timeout + 10 }

/-- One header line; a line without a separator is ignored. -/
def readHeader (line : List Char) : Option (List Char × List Char) :=
  (breakOn [':', ' '] line).map fun (key, value) => (key.map Char.toLower, value)

/-- `content-length`; nothing when `stoull` throws. -/
def readLength (headers : List (List Char × List Char)) : Option UInt64 :=
  match headers.lookup "content-length".toList with
  | some value => stoull value
  | none => some unknownLength

/-- `transfer-encoding`. -/
def readChunked (headers : List (List Char × List Char)) : Bool :=
  match headers.lookup "transfer-encoding".toList with
  | some value => (breakOn "chunked".toList value).isSome
  | none => false

/-- The code of the status line and the headers; nothing for what does not read like HTTP. -/
def parseHead (head : List Char) : Option (Int × List (List Char × List Char)) :=
  match tokenize crlf head with
  | [] => none
  | statusLine :: h =>
      match tokenize [' '] statusLine with
      | version :: code :: _ =>
          if (version = "HTTP/1.1".toList ∨ version = "HTTP/1.0".toList) ∧ atoi code ≠ 0 then
            some (atoi code, h.filterMap readHeader)
          else none
      | _ => none

/-- The part of `handle_buffer` that reads the head of the response, and whether it goes on
behind it. A content length `stoull` throws at ends the connection as well; the headers
are there by then, the status is not. -/
def readHead (c : HttpsClient) (head : List Char) : HttpsClient × Bool :=
  match parseHead head with
  | none => (c, false)
  | some (code, headers) =>
      let c := { c with responseHeaders := c.responseHeaders ++ headers }
      match readLength c.responseHeaders with
      | none => (c, false)
      | some contentLength =>
          let c := { c with contentLength, status := UInt16.ofInt code }
          if readChunked c.responseHeaders then
            ({ c with chunked := true, chunkSize := 0, chunkReceive := 0, state := .chunkLen }, true)
          else ({ c with chunked := false }, true)

/-- The head says that no body follows. -/
def bodiless (c : HttpsClient) : Prop :=
  c.status = 204 ∨ c.status < 200 ∨ c.status = 304 ∨ c.contentLength = 0

instance (c : HttpsClient) : Decidable c.bodiless := inferInstanceAs (Decidable (_ ∨ _))

/-- One turn of `handle_buffer`. `again` is `state_changed`, `wait` returns true, `stop`
returns false or throws, upon which the socket closes the client. -/
def handleBuffer (c : HttpsClient) (buffer : List Char) : Turn HttpsClient Char :=
  match c.state with
  | .headers =>
      match breakOn headersEnd buffer with
      | none => .wait c buffer
      | some (headers, buffer) =>
          let (c, accepted) := c.extended.readHead headers
          if accepted then
            if c.bodiless then .stop c.close
            else if c.chunked = false then .again (c.enter .content) buffer
            else if buffer ≠ [] then .again c buffer
            else .wait c buffer
          else .stop c.close
  | .chunkContent =>
      let toRead := if c.chunkReceive + buffer.length > c.chunkSize
        then c.chunkSize - c.chunkReceive else buffer.length
      let c := { c with
        body := c.body ++ buffer.take toRead, chunkReceive := c.chunkReceive + toRead }
      if c.chunkReceive ≥ c.chunkSize then .again (c.enter .chunkTrailer) (buffer.drop toRead)
      else .wait c (buffer.drop toRead)
  | .chunkLast =>
      if buffer.take 2 = crlf then .stop c.finished
      else .wait c buffer
  | .chunkTrailer =>
      if buffer.take 2 = crlf then .again (c.enter .chunkLen) (buffer.drop 2)
      else .wait c buffer
  | .chunkLen =>
      match breakOn crlf buffer with
      | none => .wait c buffer
      | some (length, buffer) =>
          let c := { c with chunkReceive := 0 }
          match stoi16 length with
          | none => .stop c.close
          | some n =>
              let size := (n % 2 ^ 64).toNat
              if size = 0 then .again { c with state := .chunkLast, chunkSize := 2 } buffer
              else .again { c with state := .chunkContent, chunkSize := size } buffer
  | .content =>
      if c.contentLength = unknownLength ∨ (c.body ++ buffer).length ≥ c.contentLength.toNat then
        .stop (c.appended buffer).finished
      else .wait (c.appended buffer) []
  | .done => .stop c.complete.close

/-- The content of a chunk may be there in full without another byte, so that state counts. -/
def weight (c : HttpsClient) (buffer : List Char) : Nat :=
  buffer.length + if c.state = .chunkContent then 1 else 0

/-- The client once it has seen the length of a chunk. -/
def sized (c : HttpsClient) (state : HttpState) (size : Nat) : HttpsClient :=
  { c with chunkReceive := 0, state, chunkSize := size }

/-- The client with more of the current chunk. -/
def received (c : HttpsClient) (bytes : List Char) : HttpsClient :=
  { c with body := c.body ++ bytes, chunkReceive := c.chunkReceive + bytes.length }

/-- **Turn inversion.** Everything one turn can do. -/
inductive Turned (c : HttpsClient) (buffer : List Char) : Turn HttpsClient Char → Prop where
  | headLater : c.state = .headers → breakOn headersEnd buffer = none →
      Turned c buffer (.wait c buffer)
  | refused {head rest : List Char} {c₁ : HttpsClient} : c.state = .headers →
      breakOn headersEnd buffer = some (head, rest) → c.extended.readHead head = (c₁, false) →
      Turned c buffer (.stop c₁.close)
  | bodiless {head rest : List Char} {c₁ : HttpsClient} : c.state = .headers →
      breakOn headersEnd buffer = some (head, rest) → c.extended.readHead head = (c₁, true) →
      c₁.bodiless → Turned c buffer (.stop c₁.close)
  | counted {head rest : List Char} {c₁ : HttpsClient} : c.state = .headers →
      breakOn headersEnd buffer = some (head, rest) → c.extended.readHead head = (c₁, true) →
      ¬ c₁.bodiless → c₁.chunked = false →
      Turned c buffer (.again (c₁.enter .content) rest)
  | chunks {head rest : List Char} {c₁ : HttpsClient} : c.state = .headers →
      breakOn headersEnd buffer = some (head, rest) → c.extended.readHead head = (c₁, true) →
      ¬ c₁.bodiless → c₁.chunked = true → rest ≠ [] → Turned c buffer (.again c₁ rest)
  | chunksLater {head : List Char} {c₁ : HttpsClient} : c.state = .headers →
      breakOn headersEnd buffer = some (head, []) → c.extended.readHead head = (c₁, true) →
      ¬ c₁.bodiless → c₁.chunked = true → Turned c buffer (.wait c₁ [])
  | chunk : c.state = .chunkContent → c.chunkSize ≤ c.chunkReceive + buffer.length →
      Turned c buffer (.again
        ((c.received (buffer.take (c.chunkSize - c.chunkReceive))).enter .chunkTrailer)
        (buffer.drop (c.chunkSize - c.chunkReceive)))
  | chunkPart : c.state = .chunkContent → c.chunkReceive + buffer.length < c.chunkSize →
      Turned c buffer (.wait (c.received buffer) [])
  | last : c.state = .chunkLast → buffer.take 2 = crlf → Turned c buffer (.stop c.finished)
  | lastLater : c.state = .chunkLast → buffer.take 2 ≠ crlf → Turned c buffer (.wait c buffer)
  | trailer : c.state = .chunkTrailer → buffer.take 2 = crlf →
      Turned c buffer (.again (c.enter .chunkLen) (buffer.drop 2))
  | trailerLater : c.state = .chunkTrailer → buffer.take 2 ≠ crlf →
      Turned c buffer (.wait c buffer)
  | lengthLater : c.state = .chunkLen → breakOn crlf buffer = none → Turned c buffer (.wait c buffer)
  | lengthBad {line rest : List Char} : c.state = .chunkLen →
      breakOn crlf buffer = some (line, rest) → stoi16 line = none →
      Turned c buffer (.stop { c with chunkReceive := 0 }.close)
  | lengthZero {line rest : List Char} {n : Int} : c.state = .chunkLen →
      breakOn crlf buffer = some (line, rest) → stoi16 line = some n → (n % 2 ^ 64).toNat = 0 →
      Turned c buffer (.again (c.sized .chunkLast 2) rest)
  | length {line rest : List Char} {n : Int} : c.state = .chunkLen →
      breakOn crlf buffer = some (line, rest) → stoi16 line = some n → (n % 2 ^ 64).toNat ≠ 0 →
      Turned c buffer (.again (c.sized .chunkContent (n % 2 ^ 64).toNat) rest)
  | content : c.state = .content →
      c.contentLength = unknownLength ∨ (c.body ++ buffer).length ≥ c.contentLength.toNat →
      Turned c buffer (.stop (c.appended buffer).finished)
  | contentPart : c.state = .content →
      ¬ (c.contentLength = unknownLength ∨ (c.body ++ buffer).length ≥ c.contentLength.toNat) →
      Turned c buffer (.wait (c.appended buffer) [])
  | done : c.state = .done → Turned c buffer (.stop c.complete.close)

theorem chunkContent_eq {c : HttpsClient} (h : c.state = .chunkContent) (buffer : List Char) :
    c.handleBuffer buffer =
      if c.chunkSize ≤ c.chunkReceive + buffer.length then
        .again ((c.received (buffer.take (c.chunkSize - c.chunkReceive))).enter .chunkTrailer)
          (buffer.drop (c.chunkSize - c.chunkReceive))
      else .wait (c.received buffer) [] := by
  simp only [handleBuffer, h, received]
  by_cases hmore : c.chunkReceive + buffer.length > c.chunkSize
  · have htake : min (c.chunkSize - c.chunkReceive) buffer.length = c.chunkSize - c.chunkReceive := by
      omega
    rw [if_pos hmore, if_pos (by omega), if_pos (by omega), List.length_take, htake]
  · by_cases hexact : c.chunkSize ≤ c.chunkReceive + buffer.length
    · have hlength : c.chunkSize - c.chunkReceive = buffer.length := by omega
      rw [if_neg hmore, if_pos hexact, if_pos hexact, hlength, List.take_length]
    · rw [if_neg hmore, if_neg (by omega), if_neg hexact, List.take_length, List.drop_length]

theorem Turned.eq {c : HttpsClient} {buffer : List Char} {t : Turn HttpsClient Char}
    (h : Turned c buffer t) : c.handleBuffer buffer = t := by
  cases h with
  | headLater hstate hbreak => simp only [handleBuffer, hstate, hbreak]
  | refused hstate hbreak hread =>
    simp only [handleBuffer, hstate, hbreak, hread]
    rfl
  | bodiless hstate hbreak hread hbody =>
    simp only [handleBuffer, hstate, hbreak, hread, if_pos hbody, if_true]
  | counted hstate hbreak hread hbody hchunked =>
    simp only [handleBuffer, hstate, hbreak, hread, if_neg hbody, if_pos hchunked, if_true]
  | chunks hstate hbreak hread hbody hchunked hrest =>
    simp only [handleBuffer, hstate, hbreak, hread, if_neg hbody, hchunked, if_pos hrest, if_true]
    rfl
  | chunksLater hstate hbreak hread hbody hchunked =>
    simp only [handleBuffer, hstate, hbreak, hread, if_neg hbody, hchunked, if_true]
    rfl
  | chunk hstate hsize => rw [chunkContent_eq hstate, if_pos hsize]
  | chunkPart hstate hsize => rw [chunkContent_eq hstate, if_neg (by omega)]
  | last hstate hcrlf => simp only [handleBuffer, hstate, if_pos hcrlf]
  | lastLater hstate hcrlf => simp only [handleBuffer, hstate, if_neg hcrlf]
  | trailer hstate hcrlf => simp only [handleBuffer, hstate, if_pos hcrlf]
  | trailerLater hstate hcrlf => simp only [handleBuffer, hstate, if_neg hcrlf]
  | lengthLater hstate hbreak => simp only [handleBuffer, hstate, hbreak]
  | lengthBad hstate hbreak hread => simp only [handleBuffer, hstate, hbreak, hread]
  | lengthZero hstate hbreak hread hzero =>
    simp only [handleBuffer, hstate, hbreak, hread, if_pos hzero, sized]
  | length hstate hbreak hread hzero =>
    simp only [handleBuffer, hstate, hbreak, hread, if_neg hzero, sized]
  | content hstate hwhole =>
    simp only [handleBuffer, hstate, if_pos hwhole]
  | contentPart hstate hpart =>
    simp only [handleBuffer, hstate, if_neg hpart]
  | done hstate => simp only [handleBuffer, hstate]

theorem exists_turned (c : HttpsClient) (buffer : List Char) : ∃ t, Turned c buffer t := by
  cases hstate : c.state with
  | headers =>
    cases hbreak : breakOn headersEnd buffer with
    | none => exact ⟨_, .headLater hstate hbreak⟩
    | some parts =>
      obtain ⟨head, rest⟩ := parts
      obtain ⟨⟨c₁, accepted⟩, hread⟩ : ∃ r, c.extended.readHead head = r := ⟨_, rfl⟩
      cases accepted with
      | false => exact ⟨_, .refused hstate hbreak hread⟩
      | true =>
        by_cases hbody : c₁.bodiless
        · exact ⟨_, .bodiless hstate hbreak hread hbody⟩
        · cases hchunked : c₁.chunked with
          | false => exact ⟨_, .counted hstate hbreak hread hbody hchunked⟩
          | true =>
            cases rest with
            | nil => exact ⟨_, .chunksLater hstate hbreak hread hbody hchunked⟩
            | cons b bs => exact ⟨_, .chunks hstate hbreak hread hbody hchunked (by simp)⟩
  | chunkLen =>
    cases hbreak : breakOn crlf buffer with
    | none => exact ⟨_, .lengthLater hstate hbreak⟩
    | some parts =>
      cases hread : stoi16 parts.1 with
      | none => exact ⟨_, .lengthBad hstate hbreak hread⟩
      | some n =>
        by_cases hzero : (n % 2 ^ 64).toNat = 0
        · exact ⟨_, .lengthZero hstate hbreak hread hzero⟩
        · exact ⟨_, .length hstate hbreak hread hzero⟩
  | chunkContent =>
    rcases Nat.lt_or_ge (c.chunkReceive + buffer.length) c.chunkSize with hsize | hsize
    · exact ⟨_, .chunkPart hstate hsize⟩
    · exact ⟨_, .chunk hstate hsize⟩
  | chunkTrailer =>
    by_cases hcrlf : buffer.take 2 = crlf
    · exact ⟨_, .trailer hstate hcrlf⟩
    · exact ⟨_, .trailerLater hstate hcrlf⟩
  | chunkLast =>
    by_cases hcrlf : buffer.take 2 = crlf
    · exact ⟨_, .last hstate hcrlf⟩
    · exact ⟨_, .lastLater hstate hcrlf⟩
  | content =>
    by_cases hwhole : c.contentLength = unknownLength ∨
        (c.body ++ buffer).length ≥ c.contentLength.toNat
    · exact ⟨_, .content hstate hwhole⟩
    · exact ⟨_, .contentPart hstate hwhole⟩
  | done => exact ⟨_, .done hstate⟩

theorem turned_iff {c : HttpsClient} {buffer : List Char} {t : Turn HttpsClient Char} :
    c.handleBuffer buffer = t ↔ Turned c buffer t := by
  constructor
  · rintro rfl
    obtain ⟨t, ht⟩ := exists_turned c buffer
    rw [ht.eq]
    exact ht
  · exact Turned.eq

/-- What stands in front of a delimiter is shorter than the buffer. -/
theorem length_of_breakOn {delimiter buffer before after : List Char}
    (h : breakOn delimiter buffer = some (before, after)) :
    after.length + delimiter.length ≤ buffer.length := by
  have := congrArg List.length (eq_of_breakOn h)
  simp only [List.length_append] at this
  omega

theorem weight_le (c : HttpsClient) (buffer : List Char) : weight c buffer ≤ buffer.length + 1 := by
  unfold weight
  split <;> omega

theorem handleBuffer_lowers {c c' : HttpsClient} {buffer rest : List Char}
    (h : c.handleBuffer buffer = .again c' rest) : weight c' rest < weight c buffer := by
  have hle := weight_le c' rest
  have hge : buffer.length ≤ weight c buffer := Nat.le_add_right _ _
  cases turned_iff.mp h with
  | counted _ hbreak | chunks _ hbreak =>
    have := length_of_breakOn hbreak
    simp only [headersEnd, List.length_cons, List.length_nil] at this
    omega
  | chunk hstate hsize =>
    have hbefore : weight c buffer = buffer.length + 1 := by simp [weight, hstate]
    have hafter : ∀ (c : HttpsClient) rest, weight (c.enter .chunkTrailer) rest = rest.length :=
      fun _ _ => by simp [weight, enter]
    rw [hbefore, hafter, List.length_drop]
    omega
  | trailer hstate hcrlf =>
    have := congrArg List.length hcrlf
    simp only [List.length_take, crlf, List.length_cons, List.length_nil] at this
    rw [List.length_drop] at hle
    omega
  | lengthZero _ hbreak | length _ hbreak =>
    have := length_of_breakOn hbreak
    simp only [crlf, List.length_cons, List.length_nil] at this
    omega

/-- `handle_buffer`. -/
def reader : Reader HttpsClient Char where
  turn := handleBuffer
  weight := weight
  lowers := handleBuffer_lowers

theorem drain_again {c c' : HttpsClient} {buffer rest : List Char}
    (h : Turned c buffer (.again c' rest)) : reader.drain c buffer = reader.drain c' rest :=
  Reader.drain_again h.eq

theorem drain_wait {c c' : HttpsClient} {buffer rest : List Char}
    (h : Turned c buffer (.wait c' rest)) : reader.drain c buffer = .waiting c' rest :=
  Reader.drain_wait h.eq

theorem drain_stop {c c' : HttpsClient} {buffer : List Char}
    (h : Turned c buffer (.stop c')) : reader.drain c buffer = .stopped c' :=
  Reader.drain_stop h.eq

/-- `one_second_timer`. -/
def oneSecondTimer (c : HttpsClient) (now : Nat) : HttpsClient :=
  if ¬ c.tcpConnectDone ∧ c.timeout ≤ now then { c with timedOut := true }.close
  else if c.tcpConnectDone ∧ ¬ c.connected ∧ c.timeout ≤ now ∧ c.state ≠ .done then
    { c.close with timedOut := true }
  else if c.timeout ≤ now ∧ c.state ≠ .done then { c.close with timedOut := true }
  else c

end HttpsClient

/-- What happens on the connection of a client. -/
inductive SocketEvent where
  /-- the first write event: the TCP connection stands -/
  | tcpConnected
  /-- the connection can be used -/
  | connected
  | read (bytes : List Char)
  /-- the peer hangs up, or reading or writing fails -/
  | failed
  | tick (now : Nat)
deriving DecidableEq, Repr

namespace HttpsClient

/-- The connection of a client, as its reader stands. -/
abbrev Connection := Standing HttpsClient Char

/-- A connection once its client has had the time to look at the clock. -/
def ticked (c : HttpsClient) (buffer : List Char) : Connection :=
  if c.state = .done then .stopped c else .waiting c buffer

/-- A closed connection has no socket that could be read, written or fail. -/
def step : Connection → SocketEvent → Option Connection
  | .waiting c buffer, .tcpConnected => some (.waiting { c with tcpConnectDone := true } buffer)
  | .waiting c buffer, .connected =>
      if c.tcpConnectDone then some (.waiting { c with connected := true } buffer) else none
  | .waiting c buffer, .read bytes =>
      if c.connected ∧ bytes ≠ [] then some (reader.feed (.waiting c buffer) bytes) else none
  | .waiting c _, .failed => some (.stopped c.close)
  | .waiting c buffer, .tick now => some (ticked (c.oneSecondTimer now) buffer)
  | .stopped c, .tick now => some (.stopped (c.oneSecondTimer now))
  | .stopped c, _ => some (.stopped c)

/-- The system of a client that has been given until `timeout`. -/
def system (timeout : Nat) : Transition.System Connection SocketEvent where
  start := .waiting { timeout } []
  step := step

end HttpsClient
