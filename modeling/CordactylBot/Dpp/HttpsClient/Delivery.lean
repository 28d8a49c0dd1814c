import CordactylBot.Dpp.HttpsClient.Completion
import Mathlib.Data.List.Induction

/-!
The responses that arrive, in whatever pieces.

* `run_calm` — a connection that is left alone has read what it would have read at once.
* `chunked_response`, `counted_response` — the response that was sent.
* `chunked_cut`, `counted_cut` — what a connection that ends too early leaves of it.
* `undelimited_response` — without a length, the body is what came with the head.
-/

open Incremental Dpp

/-- The bytes an event brings. -/
def SocketEvent.bytes : SocketEvent → List Char
  | .read bytes => bytes
  | _ => []

/-- An event that leaves a client alone that has been given until `timeout`. -/
def SocketEvent.Calm (timeout : Nat) : SocketEvent → Prop
  | .failed => False
  | .tick now => now < timeout
  | _ => True

/-- An event that ends the connection of such a client for sure. -/
def SocketEvent.Ends (timeout : Nat) : SocketEvent → Prop
  | .failed => True
  | .tick now => timeout + 10 ≤ now
  | _ => False

instance (timeout : Nat) : DecidablePred (SocketEvent.Calm timeout) := fun event =>
  match event with
  | .failed => inferInstanceAs (Decidable False)
  | .tick now => inferInstanceAs (Decidable (now < timeout))
  | .tcpConnected | .connected | .read _ => inferInstanceAs (Decidable True)

namespace HttpsClient

def bytesOf (events : List SocketEvent) : List Char :=
  events.flatMap SocketEvent.bytes

variable {timeout : Nat} {c c' : HttpsClient}

/-! ### Connections that are left alone -/

theorem open_opened (timeout : Nat) : Open timeout (opened timeout) :=
  ⟨nofun, rfl, rfl, rfl, fun _ => rfl, fun _ => ⟨rfl, rfl, rfl, rfl⟩, fun h => absurd rfl h⟩

/-- A turn does not change what is known about the connection. -/
def SameLink (c : HttpsClient) : Turn HttpsClient Char → Prop
  | .again c' _ | .wait c' _ => c'.connected = c.connected ∧ c'.tcpConnectDone = c.tcpConnectDone
  | .stop _ => True

theorem sameLink {buffer : List Char} {t : Turn HttpsClient Char} (h : Turned c buffer t) :
    SameLink c t := by
  cases h with
  | counted _ _ hread | chunks _ _ hread | chunksLater _ _ hread =>
    exact ⟨(readHead_kept hread).connected, (readHead_kept hread).tcpConnectDone⟩
  | refused | bodiless | last | lengthBad | content | done => trivial
  | _ => exact ⟨rfl, rfl⟩

theorem link_of_waiting {input rest : List Char} (h : reader.drain c input = .waiting c' rest) :
    c'.connected = c.connected ∧ c'.tcpConnectDone = c.tcpConnectDone := by
  revert h
  refine Reader.drain_induction (p := fun c _ at_ => at_ = .waiting c' rest →
    c'.connected = c.connected ∧ c'.tcpConnectDone = c.tcpConnectDone) ?_ ?_ ?_ c input
  · intro c input c₁ rest₁ hturn ih h
    have hlink : SameLink c (.again c₁ rest₁) := sameLink (turned_iff.mp hturn)
    exact ⟨(ih h).1.trans hlink.1, (ih h).2.trans hlink.2⟩
  · intro c input c₁ rest₁ hturn h
    cases h
    exact sameLink (turned_iff.mp hturn)
  · intro c input c₁ _ h
    cases h

theorem oneSecondTimer_early {now : Nat} (h : now < c.timeout) : c.oneSecondTimer now = c := by
  have hnot : ¬ c.timeout ≤ now := Nat.not_le.mpr h
  simp [oneSecondTimer, hnot]

/-- What a connection that is left alone can be. -/
inductive LeftAlone (timeout : Nat) : List Char → Connection → Prop where
  | connecting (tcp : Bool) : LeftAlone timeout [] (.waiting { timeout, tcpConnectDone := tcp } [])
  | reading (bytes : List Char) : LeftAlone timeout bytes (reader.drain (opened timeout) bytes)

/-- Setting what is set changes nothing. -/
theorem same_link (h : c.connected = true ∧ c.tcpConnectDone = true) :
    { c with tcpConnectDone := true } = c ∧ { c with connected := true } = c := by
  cases c
  simp_all

theorem leftAlone_step {bytes : List Char} {conn conn' : Connection} {event : SocketEvent}
    (firm : ∀ t, reader.drain (opened timeout) bytes = .stopped t →
      reader.drain (opened timeout) (bytes ++ event.bytes) = .stopped t)
    (calm : event.Calm timeout) (h : LeftAlone timeout bytes conn)
    (hstep : step conn event = some conn') : LeftAlone timeout (bytes ++ event.bytes) conn' := by
  cases h with
  | connecting tcp =>
    cases event with
    | tcpConnected =>
      cases hstep
      exact .connecting true
    | connected =>
      rw [step] at hstep
      split at hstep
      · rename_i htcp
        cases hstep
        cases htcp
        have waiting : reader.drain (opened timeout) [] = .waiting (opened timeout) [] :=
          drain_wait (.headLater rfl rfl)
        have reading := @LeftAlone.reading timeout []
        rwa [waiting] at reading
      · cases hstep
    | read more => simp [step] at hstep
    | failed => exact calm.elim
    | tick now =>
      cases hstep
      rw [oneSecondTimer_early calm]
      exact .connecting tcp
  | reading =>
    have reading := @LeftAlone.reading timeout (bytes ++ event.bytes)
    have hstands := stands_drain (open_opened timeout) rfl bytes
    cases hconn : reader.drain (opened timeout) bytes with
    | waiting c rest =>
      rw [hconn] at hstep hstands
      have hlink : c.connected = true ∧ c.tcpConnectDone = true := link_of_waiting hconn
      have ho : Open timeout c := hstands
      cases event with
      | read more =>
        rw [step] at hstep
        split at hstep
        · cases hstep
          rw [Reader.feed, ← Reader.drain_append resumable hconn]
          exact reading
        · cases hstep
      | failed => exact calm.elim
      | tick now =>
        cases hstep
        rw [oneSecondTimer_early (Nat.lt_of_lt_of_le calm ho.timeout_le.1), ticked,
          if_neg ho.state, ← hconn]
        simpa [SocketEvent.bytes] using reading
      | tcpConnected =>
        cases hstep
        rw [(same_link hlink).1, ← hconn]
        simpa [SocketEvent.bytes] using reading
      | connected =>
        rw [step, if_pos hlink.2, (same_link hlink).2, ← hconn] at hstep
        cases hstep
        simpa [SocketEvent.bytes] using reading
    | stopped t =>
      rw [firm t hconn] at reading
      rw [hconn] at hstep hstands
      have hc : Closed timeout t := hstands
      cases event with
      | failed => exact calm.elim
      | tick now =>
        cases hstep
        rw [oneSecondTimer_early (Nat.lt_of_lt_of_le calm hc.timeout_le)]
        exact reading
      | tcpConnected | connected | read more =>
        cases hstep
        exact reading

/-- **A connection that is left alone** has read what it would have read at once, if what it
reads does not go on behind an end. -/
theorem run_calm {events : List SocketEvent} {conn : Connection}
    (firm : ∀ p q t, p ++ q <+: bytesOf events → reader.drain (opened timeout) p = .stopped t →
      reader.drain (opened timeout) (p ++ q) = .stopped t)
    (calm : ∀ event ∈ events, event.Calm timeout)
    (hrun : (system timeout).run (system timeout).start events = some conn) :
    LeftAlone timeout (bytesOf events) conn := by
  induction events using List.reverseRecOn generalizing conn with
  | nil =>
    cases hrun
    exact .connecting false
  | append_singleton events event ih =>
    have hbytes : bytesOf (events ++ [event]) = bytesOf events ++ event.bytes := by
      simp [bytesOf]
    rw [hbytes] at firm ⊢
    obtain ⟨conn₁, hbefore, hlast⟩ := Transition.System.run_append _ |>.mp hrun
    obtain ⟨conn₂, hstep, hnil⟩ := Transition.System.run_cons _ |>.mp hlast
    cases hnil
    have before := ih (fun p q t hpq => firm p q t (hpq.trans (List.prefix_append _ _)))
      (fun e he => calm e (by simp [he])) hbefore
    exact leftAlone_step (fun t => firm _ _ t List.prefix_rfl) (calm event (by simp)) before hstep

/-! ### The response that was sent -/

theorem fixed_completions {conn₁ conn : Connection} {events more : List SocketEvent}
    {t : HttpsClient} (hfirst : (system timeout).run (system timeout).start events = some conn₁)
    (hstop : conn₁ = .stopped t) (hmore : (system timeout).run conn₁ more = some conn) :
    (client conn).completions = t.completions := by
  have hclosed := stands_run (stands_start timeout) hfirst
  rw [hstop] at hclosed hmore
  obtain ⟨c', rfl, hsame⟩ := run_stopped hclosed hmore
  exact hsame

/-- What a connection that has read something stands at. -/
theorem LeftAlone.drained {bytes : List Char} {conn : Connection} (h : LeftAlone timeout bytes conn)
    (hne : bytes ≠ []) : conn = reader.drain (opened timeout) bytes := by
  cases h with
  | connecting => exact absurd rfl hne
  | reading => rfl

/-- **A response in chunks arrives**, in whatever pieces, whatever stands behind it and
whatever becomes of the connection. -/
theorem chunked_response {events more : List SocketEvent} {conn : Connection}
    (head : ResponseHead) (hchunked : readChunked head.headers = true) (chunks : List Chunk)
    (last : LastChunk) (calm : ∀ event ∈ events, event.Calm timeout)
    (whole : head.text ++ headersEnd ++ chunkedText chunks last <+: bytesOf events)
    (hrun : (system timeout).run (system timeout).start (events ++ more) = some conn) :
    (client conn).completions = [head.completion (chunks.flatMap Chunk.data)] := by
  obtain ⟨conn₁, hfirst, hmore⟩ := Transition.System.run_append _ |>.mp hrun
  obtain ⟨behind, hbytes⟩ := whole
  rw [List.append_assoc] at hbytes
  have alone : LeftAlone timeout (bytesOf events) conn₁ :=
    run_calm (fun p q t hpq hstop =>
      chunked_firm (fresh_opened timeout) head hchunked (hbytes ▸ hpq) hstop) calm hfirst
  have hne : bytesOf events ≠ [] := by
    rw [← hbytes, headersEnd]
    simp
  obtain ⟨t, hstop, hcompletions⟩ :=
    drain_chunked (fresh_opened timeout) head hchunked chunks last behind
  rw [hbytes] at hstop
  rw [fixed_completions hfirst ((alone.drained hne).trans hstop) hmore, hcompletions]

/-- The head `HTTP/1.1 200 OK` with one header. -/
def okHead (field : Field) (contentLength : UInt64)
    (length : readLength [field.entry] = some contentLength) (nonempty : contentLength ≠ 0) :
    ResponseHead :=
  .ofFields 200 "OK".toList (by simp [crlf]) [field] contentLength length nonempty (by decide)

def chunkedHead : ResponseHead :=
  okHead ⟨"Transfer-Encoding".toList, "chunked".toList, by simp [crlf], by simp [crlf]⟩
    unknownLength (by decide +kernel) (by decide)

def countedHead : ResponseHead :=
  okHead ⟨"Content-Length".toList, "7".toList, by simp [crlf], by simp [crlf]⟩
    7 (by decide +kernel) (by decide)

def twoChunks : List Chunk :=
  [.ofData "[1".toList (by simp) (by decide +kernel), .ofData ",2]".toList (by simp) (by decide +kernel)]

/-- A connection whose response is read in two pieces, with a look at the clock in between. -/
def inTwoPieces (text : List Char) (cut : Nat) : List SocketEvent :=
  [.tcpConnected, .connected, .read (text.take cut), .tick 3, .read (text.drop cut)]

theorem chunked_response_in_two_pieces :
    ∃ conn, (system 5).run (system 5).start (inTwoPieces (chunkedHead.text ++ headersEnd ++
        chunkedText twoChunks .plain) 50 ++ [.failed]) = some conn ∧
      (client conn).completions = [chunkedHead.completion "[1,2]".toList] := by
  have hrun : ((system 5).run (system 5).start (inTwoPieces (chunkedHead.text ++ headersEnd ++
      chunkedText twoChunks .plain) 50 ++ [.failed])).isSome = true := by decide +kernel
  obtain ⟨conn, hrun⟩ := Option.isSome_iff_exists.mp hrun
  exact ⟨conn, hrun, chunked_response chunkedHead (by decide +kernel) twoChunks .plain
    (by decide +kernel) (by decide +kernel) hrun⟩

/-- **A response of announced length arrives.** -/
theorem counted_response {events more : List SocketEvent} {conn : Connection}
    (head : ResponseHead) (hchunked : readChunked head.headers = false)
    (known : head.contentLength ≠ unknownLength) {data : List Char}
    (hdata : data.length = head.contentLength.toNat)
    (calm : ∀ event ∈ events, event.Calm timeout)
    (whole : bytesOf events = head.text ++ headersEnd ++ data)
    (hrun : (system timeout).run (system timeout).start (events ++ more) = some conn) :
    (client conn).completions = [head.completion data] := by
  obtain ⟨conn₁, hfirst, hmore⟩ := Transition.System.run_append _ |>.mp hrun
  have alone : LeftAlone timeout (bytesOf events) conn₁ :=
    run_calm (fun p q t hpq hstop =>
      counted_firm (fresh_opened timeout) head hchunked known hdata.le (whole ▸ hpq) hstop)
      calm hfirst
  have hne : bytesOf events ≠ [] := by
    rw [whole, headersEnd]
    simp
  obtain ⟨t, hstop, hcompletions⟩ := drain_counted (fresh_opened timeout) head hchunked hdata
  rw [← whole] at hstop
  rw [fixed_completions hfirst ((alone.drained hne).trans hstop) hmore, hcompletions]

theorem counted_response_in_two_pieces :
    ∃ conn, (system 5).run (system 5).start (inTwoPieces (countedHead.text ++ headersEnd ++
        "[1,2,3]".toList) 40 ++ [.failed]) = some conn ∧
      (client conn).completions = [countedHead.completion "[1,2,3]".toList] := by
  have hrun : ((system 5).run (system 5).start (inTwoPieces (countedHead.text ++ headersEnd ++
      "[1,2,3]".toList) 40 ++ [.failed])).isSome = true := by decide +kernel
  obtain ⟨conn, hrun⟩ := Option.isSome_iff_exists.mp hrun
  exact ⟨conn, hrun, counted_response countedHead (by decide +kernel) (by decide +kernel)
    (by decide +kernel) (by decide +kernel) (by decide +kernel) hrun⟩

/-! ### A connection that ends too early -/

/-- An event that ends the connection of an open client calls its handler. -/
theorem ended_completions {conn : Connection} {event : SocketEvent} {rest : List Char}
    (ho : Open timeout c) (htcp : c.tcpConnectDone = true) (ends : event.Ends timeout)
    (hstep : step (.waiting c rest) event = some conn) :
    ∃ t, conn = .stopped t ∧ t.completions = [c.result] := by
  cases event with
  | failed =>
    cases hstep
    refine ⟨c.close, rfl, ?_⟩
    simp [close, ho.state, complete, ho.pending, ho.completions]
  | tick now =>
    cases hstep
    obtain ⟨t, hstop, hresult⟩ := ticked_late ho ends rest
    exact ⟨t, hstop, hresult htcp⟩
  | tcpConnected | connected | read bytes => exact ends.elim

/-- A connection that ends while its client is behind a head and not through. -/
theorem cut_completions {events more : List SocketEvent} {event : SocketEvent}
    {conn : Connection} {head : ResponseHead} {part rest : List Char}
    (firm : ∀ p q t, p ++ q <+: bytesOf events → reader.drain (opened timeout) p = .stopped t →
      reader.drain (opened timeout) (p ++ q) = .stopped t)
    (calm : ∀ event ∈ events, event.Calm timeout) (ends : event.Ends timeout)
    (hpart : bytesOf events = head.text ++ headersEnd ++ part)
    (hwait : reader.drain (opened timeout) (bytesOf events) = .waiting c rest)
    (hgrows : Grows (head.taken (opened timeout)) c)
    (hrun : (system timeout).run (system timeout).start (events ++ event :: more) = some conn) :
    (client conn).completions = [head.completion c.body] := by
  obtain ⟨conn₁, hfirst, hlast⟩ := Transition.System.run_append _ |>.mp hrun
  obtain ⟨conn₂, hstep, hmore⟩ := Transition.System.run_cons _ |>.mp hlast
  have hne : bytesOf events ≠ [] := by
    rw [hpart, headersEnd]
    simp
  have hconn := ((run_calm firm calm hfirst).drained hne).trans hwait
  have hstands := stands_run (stands_start timeout) hfirst
  rw [hconn] at hstep hstands
  obtain ⟨t, hstop, hresult⟩ := ended_completions hstands hgrows.tcpConnectDone ends hstep
  have hsecond : (system timeout).run (system timeout).start (events ++ [event]) = some conn₂ :=
    (Transition.System.run_append _).mpr ⟨conn₁, hfirst, (Transition.System.run_cons _).mpr
      ⟨conn₂, hconn ▸ hstep, rfl⟩⟩
  rw [fixed_completions hsecond hstop hmore, hresult, result_of_grows (fresh_opened timeout) hgrows]

/-- **A response of announced length that breaks off** completes as if it were whole, with as
much of the body as there was. -/
theorem counted_cut {events more : List SocketEvent} {event : SocketEvent} {conn : Connection}
    (head : ResponseHead) (hchunked : readChunked head.headers = false)
    (known : head.contentLength ≠ unknownLength) {part : List Char}
    (hpart : part.length < head.contentLength.toNat)
    (calm : ∀ event ∈ events, event.Calm timeout) (ends : event.Ends timeout)
    (sent : bytesOf events = head.text ++ headersEnd ++ part)
    (hrun : (system timeout).run (system timeout).start (events ++ event :: more) = some conn) :
    (client conn).completions = [head.completion part] := by
  have hwait := drain_part_of_counted (fresh_opened timeout) head hchunked known hpart
  rw [← sent] at hwait
  exact cut_completions (fun p q t hpq hstop =>
    counted_firm (fresh_opened timeout) head hchunked known hpart.le (sent ▸ hpq) hstop)
    calm ends sent hwait (grows_appended _ part) hrun

theorem finished_body (c : HttpsClient) : c.finished.body = c.body := by
  unfold finished close complete enter
  split <;> rfl

theorem close_body (c : HttpsClient) : c.close.body = c.body := by
  unfold close complete
  split
  · split <;> rfl
  · rfl

/-- Two bytes short, and fifteen seconds later the time is up. -/
theorem counted_cut_short :
    ∃ conn, (system 5).run (system 5).start (inTwoPieces (countedHead.text ++ headersEnd ++
        "[1,2,".toList) 40 ++ .tick 15 :: []) = some conn ∧
      (client conn).completions = [countedHead.completion "[1,2,".toList] := by
  have hrun : ((system 5).run (system 5).start (inTwoPieces (countedHead.text ++ headersEnd ++
      "[1,2,".toList) 40 ++ .tick 15 :: [])).isSome = true := by decide +kernel
  obtain ⟨conn, hrun⟩ := Option.isSome_iff_exists.mp hrun
  exact ⟨conn, hrun, counted_cut countedHead (by decide +kernel) (by decide +kernel)
    (by decide +kernel) (by decide +kernel) (Nat.le_refl _) (by decide +kernel) hrun⟩

/-- What ends a response leaves its body. -/
theorem Went.body_prefix {t : HttpsClient} (h : Went c (.stopped t)) : c.body <+: t.body := by
  generalize hat : Standing.stopped t = at_ at h
  cases h with
  | waiting => cases hat
  | @finished c' hgrows _ =>
    cases hat
    rw [finished_body]
    exact hgrows.body
  | @closed c' hgrows _ =>
    cases hat
    rw [close_body]
    exact hgrows.body

/-- What a client behind a head makes of a part of the chunks. -/
theorem drain_part_of_chunks (hstate : c.state = .chunkLen) (chunks : List Chunk)
    (last : LastChunk) {part missing : List Char}
    (hpart : part ++ missing = chunkedText chunks last) :
    ∃ c', Grows c c' ∧ c'.body <+: c.body ++ chunks.flatMap Chunk.data ∧
      (reader.drain c part = .stopped c'.finished ∨
        ∃ rest, reader.drain c part = .waiting c' rest) := by
  have hin : InBody c := by simp [InBody, hstate]
  obtain ⟨full, hgrows, -, hbody, hdrain⟩ := drain_chunks hstate chunks last
  rw [← hpart] at hdrain
  cases hat : reader.drain c part with
  | stopped t =>
    have hfirm := chunking_firm (.inl hstate) hat missing
    rw [hdrain] at hfirm
    cases hfirm
    exact ⟨full, hgrows, hbody ▸ List.prefix_rfl, .inl rfl⟩
  | waiting c' rest =>
    have hwent := went_drain hin part
    rw [hat] at hwent
    cases hwent with
    | waiting hgrows' hin' =>
      have hrest := Reader.drain_append resumable hat missing
      have hend := went_drain hin' (rest ++ missing)
      rw [← hrest, hdrain] at hend
      refine ⟨c', hgrows', ?_, .inr ⟨rest, rfl⟩⟩
      rw [← hbody, ← finished_body full]
      exact hend.body_prefix

/-- **A response in chunks that breaks off** completes as if it were whole, with a first part of
its body. -/
theorem chunked_cut {events more : List SocketEvent} {event : SocketEvent} {conn : Connection}
    (head : ResponseHead) (hchunked : readChunked head.headers = true) (chunks : List Chunk)
    (last : LastChunk) {part missing : List Char}
    (hpart : part ++ missing = chunkedText chunks last)
    (calm : ∀ event ∈ events, event.Calm timeout) (ends : event.Ends timeout)
    (sent : bytesOf events = head.text ++ headersEnd ++ part)
    (hrun : (system timeout).run (system timeout).start (events ++ event :: more) = some conn) :
    ∃ data, data <+: chunks.flatMap Chunk.data ∧
      (client conn).completions = [head.completion data] := by
  have hfresh := fresh_opened timeout
  have hstate : (head.taken (opened timeout)).state = .chunkLen := by
    simp [ResponseHead.taken, hchunked]
  have firm : ∀ p q t, p ++ q <+: bytesOf events →
      reader.drain (opened timeout) p = .stopped t →
      reader.drain (opened timeout) (p ++ q) = .stopped t := fun p q t hpq hstop =>
    chunked_firm hfresh head hchunked (sent ▸ hpq) hstop
  obtain ⟨c', hgrows, hprefix, hstop | ⟨rest, hwait⟩⟩ :=
    drain_part_of_chunks hstate chunks last hpart
  · obtain ⟨conn₁, hfirst, hmore⟩ := Transition.System.run_append _ |>.mp hrun
    rw [← drain_head hfresh, ← sent] at hstop
    have hne : bytesOf events ≠ [] := by
      rw [sent, headersEnd]
      simp
    have hconn := ((run_calm firm calm hfirst).drained hne).trans hstop
    refine ⟨c'.body, hprefix, ?_⟩
    rw [fixed_completions hfirst hconn hmore, completions_of_grows hfresh hgrows]
  · rw [← drain_head hfresh, ← sent] at hwait
    exact ⟨c'.body, hprefix, cut_completions firm calm ends sent hwait hgrows hrun⟩

/-- The second chunk is cut, and the peer hangs up. -/
theorem chunked_cut_short :
    ∃ conn, (system 5).run (system 5).start (inTwoPieces (chunkedHead.text ++ headersEnd ++
        (chunkedText twoChunks .plain).take 11) 50 ++ .failed :: []) = some conn ∧
      ∃ data, data <+: twoChunks.flatMap Chunk.data ∧
        (client conn).completions = [chunkedHead.completion data] := by
  have hrun : ((system 5).run (system 5).start (inTwoPieces (chunkedHead.text ++ headersEnd ++
      (chunkedText twoChunks .plain).take 11) 50 ++ .failed :: [])).isSome = true := by
    decide +kernel
  obtain ⟨conn, hrun⟩ := Option.isSome_iff_exists.mp hrun
  have ends : SocketEvent.failed.Ends 5 := trivial
  exact ⟨conn, hrun, chunked_cut chunkedHead (by decide +kernel) twoChunks .plain
    (List.take_append_drop 11 _) (by decide +kernel) ends (by decide +kernel) hrun⟩

/-- **Without a length** and without chunks, the body is what came in the same read as the end
of the head: the client does not wait for the connection to close. -/
theorem undelimited_response {events more : List SocketEvent} {conn : Connection}
    (head : ResponseHead) (hchunked : readChunked head.headers = false)
    (unknown : head.contentLength = unknownLength) {part missing rest : List Char}
    (hhead : part ++ missing = head.text ++ headersEnd) (hmissing : missing ≠ [])
    (calm : ∀ event ∈ events, event.Calm timeout) (sent : bytesOf events = part)
    (hrun : (system timeout).run (system timeout).start
      (events ++ .read (missing ++ rest) :: more) = some conn) :
    (client conn).completions = [head.completion rest] := by
  have hfresh := fresh_opened timeout
  have hstate : (head.taken (opened timeout)).state = .content := by
    simp [ResponseHead.taken, hchunked]
  have firm : ∀ p q t, p ++ q <+: bytesOf events →
      reader.drain (opened timeout) p = .stopped t →
      reader.drain (opened timeout) (p ++ q) = .stopped t := by
    rintro p q t ⟨behind, hpq⟩ hstop
    rw [List.append_assoc, sent] at hpq
    have hp : p ++ (q ++ behind ++ missing) = head.text ++ headersEnd := by
      rw [← hhead, ← hpq]
      simp
    rw [drain_part_of_head hfresh head hp (by simp [hmissing])] at hstop
    cases hstop
  obtain ⟨conn₁, hfirst, hlast⟩ := Transition.System.run_append _ |>.mp hrun
  obtain ⟨conn₂, hstep, hmore⟩ := Transition.System.run_cons _ |>.mp hlast
  replace hstep : step conn₁ (.read (missing ++ rest)) = some conn₂ := hstep
  have hread : conn₂ = reader.drain (opened timeout) (head.text ++ headersEnd ++ rest) := by
    have alone := run_calm firm calm hfirst
    rw [sent] at alone
    cases alone with
    | connecting tcp => simp [step] at hstep
    | reading =>
      rw [drain_part_of_head hfresh head hhead hmissing, step,
        if_pos ⟨rfl, by simp [hmissing]⟩, Reader.feed, ← List.append_assoc, hhead] at hstep
      exact (Option.some.inj hstep).symm
  have whole : Turned (head.taken (opened timeout)) rest
      (.stop ((head.taken (opened timeout)).appended rest).finished) :=
    .content hstate (.inl unknown)
  rw [drain_head hfresh, drain_stop whole] at hread
  have hsecond : (system timeout).run (system timeout).start
      (events ++ [.read (missing ++ rest)]) = some conn₂ :=
    (Transition.System.run_append _).mpr ⟨conn₁, hfirst, (Transition.System.run_cons _).mpr
      ⟨conn₂, hstep, rfl⟩⟩
  rw [fixed_completions hsecond hread hmore,
    completions_of_grows hfresh (grows_appended _ rest)]
  rfl

def plainHead : ResponseHead :=
  okHead ⟨"Connection".toList, "close".toList, by simp [crlf], by simp [crlf]⟩
    unknownLength (by decide +kernel) (by decide)

/-- The second half of the body is lost. -/
theorem undelimited_response_cut :
    ∃ conn, (system 5).run (system 5).start ([.tcpConnected, .connected, .tick 3] ++
        .read (plainHead.text ++ headersEnd ++ "[1,".toList) :: [.read "2]".toList]) = some conn ∧
      (client conn).completions = [plainHead.completion "[1,".toList] := by
  have hrun : ((system 5).run (system 5).start ([.tcpConnected, .connected, .tick 3] ++
      .read (plainHead.text ++ headersEnd ++ "[1,".toList) :: [.read "2]".toList])).isSome = true := by
    decide +kernel
  obtain ⟨conn, hrun⟩ := Option.isSome_iff_exists.mp hrun
  exact ⟨conn, hrun, undelimited_response plainHead (by decide +kernel) rfl (List.nil_append _)
    (by decide +kernel) (by decide +kernel) rfl hrun⟩

end HttpsClient
