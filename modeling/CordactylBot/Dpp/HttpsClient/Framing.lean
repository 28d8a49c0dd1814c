import CordactylBot.Dpp.HttpsClient

/-!
Where a response ends, and that it does not matter in which pieces it arrives.

* `resumable` — the loop of `handle_buffer` can be left and entered again anywhere.
* `drain_chunks` — a body written in chunks is read back.
-/

open Incremental Dpp

namespace HttpsClient

/-! ### The loop can be resumed -/

theorem received_received (c : HttpsClient) (xs ys : List Char) :
    (c.received xs).received ys = c.received (xs ++ ys) := by
  simp [received, Nat.add_assoc]

theorem appended_appended (c : HttpsClient) (xs ys : List Char) :
    (c.appended xs).appended ys = c.appended (xs ++ ys) := by
  simp [appended]

theorem take_two_append {buffer : List Char} (h : buffer.take 2 = crlf) (more : List Char) :
    (buffer ++ more).take 2 = crlf ∧ (buffer ++ more).drop 2 = buffer.drop 2 ++ more := by
  have hlength : 2 ≤ buffer.length := by
    have := congrArg List.length h
    simp only [List.length_take, crlf, List.length_cons, List.length_nil] at this
    omega
  rw [List.take_append_of_le_length hlength, List.drop_append_of_le_length hlength]
  exact ⟨h, rfl⟩

theorem readHead_chunked {c c₁ : HttpsClient} {head : List Char}
    (h : c.readHead head = (c₁, true)) (hchunked : c₁.chunked = true) : c₁.state = .chunkLen := by
  unfold readHead at h
  split at h
  · cases h
  · dsimp only at h
    split at h
    · cases h
    · split at h
      · cases h
        rfl
      · cases h
        cases hchunked

theorem turn_again_append {c c' : HttpsClient} {buffer rest : List Char} (more : List Char)
    (h : c.handleBuffer buffer = .again c' rest) :
    c.handleBuffer (buffer ++ more) = .again c' (rest ++ more) := by
  apply Turned.eq
  cases turned_iff.mp h with
  | counted hstate hbreak hread hbody hchunked =>
    exact .counted hstate (breakOn_append more hbreak) hread hbody hchunked
  | chunks hstate hbreak hread hbody hchunked hrest =>
    exact .chunks hstate (breakOn_append more hbreak) hread hbody hchunked (by simp [hrest])
  | chunk hstate hsize =>
    have hskip : c.chunkSize - c.chunkReceive ≤ buffer.length := by omega
    have whole : Turned c (buffer ++ more) _ :=
      .chunk hstate (by simp only [List.length_append]; omega)
    rwa [List.take_append_of_le_length hskip, List.drop_append_of_le_length hskip] at whole
  | trailer hstate hcrlf =>
    obtain ⟨htake, hdrop⟩ := take_two_append hcrlf more
    rw [← hdrop]
    exact .trailer hstate htake
  | lengthZero hstate hbreak hread hzero =>
    exact .lengthZero hstate (breakOn_append more hbreak) hread hzero
  | length hstate hbreak hread hzero =>
    exact .length hstate (breakOn_append more hbreak) hread hzero

theorem chunkPart_append {c : HttpsClient} {buffer : List Char} (more : List Char)
    (hstate : c.state = .chunkContent) (hsize : c.chunkReceive + buffer.length < c.chunkSize) :
    c.handleBuffer (buffer ++ more) = (c.received buffer).handleBuffer more := by
  have hstate' : (c.received buffer).state = .chunkContent := hstate
  have hreceive : (c.received buffer).chunkReceive = c.chunkReceive + buffer.length := rfl
  have hchunkSize : (c.received buffer).chunkSize = c.chunkSize := rfl
  rw [chunkContent_eq hstate, chunkContent_eq hstate', hreceive, hchunkSize, List.length_append,
    ← Nat.add_assoc]
  split
  · have hskip : buffer.length ≤ c.chunkSize - c.chunkReceive := by omega
    rw [received_received, List.take_append, List.drop_append, List.take_of_length_le hskip,
      List.drop_of_length_le hskip, List.nil_append, Nat.sub_sub]
  · rw [received_received]

theorem contentPart_append {c : HttpsClient} {buffer : List Char} (more : List Char)
    (hstate : c.state = .content) :
    c.handleBuffer (buffer ++ more) = (c.appended buffer).handleBuffer more := by
  have hstate' : (c.appended buffer).state = .content := hstate
  simp only [handleBuffer, hstate, hstate', appended_appended, ← List.append_assoc]
  rfl

theorem drain_wait_append {c c' : HttpsClient} {buffer rest : List Char} (more : List Char)
    (h : c.handleBuffer buffer = .wait c' rest) :
    reader.drain c (buffer ++ more) = reader.drain c' (rest ++ more) := by
  cases turned_iff.mp h with
  | headLater | lastLater | trailerLater | lengthLater => rfl
  | chunksLater hstate hbreak hread hbody hchunked =>
    cases more with
    | nil =>
      have hlater : Turned c' [] (.wait c' []) :=
        .lengthLater (readHead_chunked hread hchunked) rfl
      rw [List.append_nil, List.append_nil, drain_wait hlater]
      exact Reader.drain_wait h
    | cons b bs =>
      exact drain_again (.chunks hstate (breakOn_append _ hbreak) hread hbody hchunked (by simp))
  | chunkPart hstate hsize => exact Reader.drain_congr (chunkPart_append more hstate hsize)
  | contentPart hstate hpart => exact Reader.drain_congr (contentPart_append more hstate)

theorem resumable : reader.Resumable where
  again more h := turn_again_append more h
  wait more h := drain_wait_append more h

/-! ### What a turn keeps -/

/-- A client that has its head only gets more of its body. -/
structure Grows (c c' : HttpsClient) : Prop where
  body : c.body <+: c'.body
  status : c'.status = c.status
  contentLength : c'.contentLength = c.contentLength
  responseHeaders : c'.responseHeaders = c.responseHeaders
  timeout : c'.timeout = c.timeout
  timedOut : c'.timedOut = c.timedOut
  tcpConnectDone : c'.tcpConnectDone = c.tcpConnectDone
  connected : c'.connected = c.connected
  pending : c'.pending = c.pending
  completions : c'.completions = c.completions

theorem Grows.refl (c : HttpsClient) : Grows c c :=
  ⟨List.prefix_rfl, rfl, rfl, rfl, rfl, rfl, rfl, rfl, rfl, rfl⟩

theorem Grows.trans {a b c : HttpsClient} (h : Grows a b) (h' : Grows b c) : Grows a c :=
  ⟨h.body.trans h'.body, h'.status.trans h.status, h'.contentLength.trans h.contentLength,
    h'.responseHeaders.trans h.responseHeaders, h'.timeout.trans h.timeout,
    h'.timedOut.trans h.timedOut, h'.tcpConnectDone.trans h.tcpConnectDone,
    h'.connected.trans h.connected, h'.pending.trans h.pending,
    h'.completions.trans h.completions⟩

theorem grows_enter (c : HttpsClient) (state : HttpState) : Grows c (c.enter state) :=
  ⟨List.prefix_rfl, rfl, rfl, rfl, rfl, rfl, rfl, rfl, rfl, rfl⟩

theorem grows_sized (c : HttpsClient) (state : HttpState) (size : Nat) :
    Grows c (c.sized state size) :=
  ⟨List.prefix_rfl, rfl, rfl, rfl, rfl, rfl, rfl, rfl, rfl, rfl⟩

theorem grows_received (c : HttpsClient) (bytes : List Char) : Grows c (c.received bytes) :=
  ⟨List.prefix_append _ _, rfl, rfl, rfl, rfl, rfl, rfl, rfl, rfl, rfl⟩

theorem grows_appended (c : HttpsClient) (bytes : List Char) : Grows c (c.appended bytes) :=
  ⟨List.prefix_append _ _, rfl, rfl, rfl, rfl, rfl, rfl, rfl, rfl, rfl⟩

/-- The client is in the middle of a response, past its head. -/
def InBody (c : HttpsClient) : Prop :=
  c.state ≠ .headers ∧ c.state ≠ .done

/-- What a client in the middle of a response has become: it goes on, or ended. -/
inductive Went (c : HttpsClient) : Standing HttpsClient Char → Prop where
  | waiting {c' : HttpsClient} {rest : List Char} :
      Grows c c' → InBody c' → Went c (.waiting c' rest)
  | finished {c' : HttpsClient} : Grows c c' → InBody c' → Went c (.stopped c'.finished)
  | closed {c' : HttpsClient} : Grows c c' → InBody c' → Went c (.stopped c'.close)

theorem Went.of_grows {a b : HttpsClient} {at_ : Standing HttpsClient Char} (h : Grows a b)
    (hw : Went b at_) : Went a at_ := by
  cases hw with
  | waiting h' hin => exact .waiting (h.trans h') hin
  | finished h' hin => exact .finished (h.trans h') hin
  | closed h' hin => exact .closed (h.trans h') hin

theorem turned_again_grows {c c' : HttpsClient} {buffer rest : List Char} (hin : InBody c)
    (h : Turned c buffer (.again c' rest)) : Grows c c' ∧ InBody c' := by
  cases h with
  | counted hstate | chunks hstate => exact absurd hstate hin.1
  | chunk => exact ⟨(grows_received c _).trans (grows_enter _ _), by simp [InBody, enter]⟩
  | trailer => exact ⟨grows_enter c _, by simp [InBody, enter]⟩
  | lengthZero | length => exact ⟨grows_sized c _ _, by simp [InBody, sized]⟩

theorem went_of_wait {c c' : HttpsClient} {buffer rest : List Char} (hin : InBody c)
    (h : Turned c buffer (.wait c' rest)) : Went c (.waiting c' rest) := by
  cases h with
  | headLater | lastLater | trailerLater | lengthLater => exact .waiting (.refl c) hin
  | chunksLater hstate => exact absurd hstate hin.1
  | chunkPart => exact .waiting (grows_received c _) hin
  | contentPart => exact .waiting (grows_appended c _) hin

theorem went_of_stop {c c' : HttpsClient} {buffer : List Char} (hin : InBody c)
    (h : Turned c buffer (.stop c')) : Went c (.stopped c') := by
  cases h with
  | refused hstate | bodiless hstate => exact absurd hstate hin.1
  | last => exact .finished (.refl c) hin
  | lengthBad =>
    exact .closed ⟨List.prefix_rfl, rfl, rfl, rfl, rfl, rfl, rfl, rfl, rfl, rfl⟩ hin
  | content => exact .finished (grows_appended c _) hin
  | done hstate => exact absurd hstate hin.2

theorem went_drain {c : HttpsClient} (hin : InBody c) (input : List Char) :
    Went c (reader.drain c input) := by
  refine Reader.drain_induction (p := fun c _ at_ => InBody c → Went c at_) ?_ ?_ ?_ c input hin
  · intro c input c' rest hturn ih hin
    obtain ⟨hgrows, hin'⟩ := turned_again_grows hin (turned_iff.mp hturn)
    exact (ih hin').of_grows hgrows
  · intro c input c' rest hturn hin
    exact went_of_wait hin (turned_iff.mp hturn)
  · intro c input c' hturn hin
    exact went_of_stop hin (turned_iff.mp hturn)

/-! ### Chunks -/

/-- The client reads chunks. -/
def Chunking (c : HttpsClient) : Prop :=
  c.state = .chunkLen ∨ c.state = .chunkContent ∨ c.state = .chunkTrailer ∨ c.state = .chunkLast

/-- **What ends a chunked body ends it for good**: bytes behind do not matter. -/
theorem chunking_firm {c t : HttpsClient} {input : List Char} (hc : Chunking c)
    (h : reader.drain c input = .stopped t) (more : List Char) :
    reader.drain c (input ++ more) = .stopped t := by
  revert hc h
  refine Reader.drain_induction (p := fun c input at_ => Chunking c → at_ = .stopped t →
    reader.drain c (input ++ more) = .stopped t) ?_ ?_ ?_ c input
  · intro c input c' rest hturn ih hc h
    rw [Reader.drain_again (turn_again_append more hturn)]
    refine ih ?_ h
    cases turned_iff.mp hturn with
    | counted hstate | chunks hstate => simp [Chunking, hstate] at hc
    | chunk => exact .inr (.inr (.inl rfl))
    | trailer => exact .inl rfl
    | lengthZero => exact .inr (.inr (.inr rfl))
    | length => exact .inr (.inl rfl)
  · intro c input c' rest _ _ h
    cases h
  · intro c input c' hturn hc h
    cases h
    cases turned_iff.mp hturn with
    | refused hstate | bodiless hstate | content hstate | done hstate =>
      simp [Chunking, hstate] at hc
    | last hstate hcrlf => exact drain_stop (.last hstate (take_two_append hcrlf more).1)
    | lengthBad hstate hbreak hread =>
      exact drain_stop (.lengthBad hstate (breakOn_append more hbreak) hread)

/-- A chunk as a server may write it: the line reads as the length of the data. -/
structure Chunk where
  line : List Char
  data : List Char
  alone : breakOn crlf (line ++ crlf) = some (line, [])
  size : stoi16 line = some (data.length : Int)
  nonempty : data ≠ []

def Chunk.text (chunk : Chunk) : List Char :=
  chunk.line ++ crlf ++ (chunk.data ++ crlf)

/-- The line that ends a chunked body. -/
structure LastChunk where
  line : List Char
  alone : breakOn crlf (line ++ crlf) = some (line, [])
  zero : stoi16 line = some 0

def LastChunk.text (last : LastChunk) : List Char :=
  last.line ++ crlf ++ crlf

theorem crlf_notMem_toDigits (n : Nat) : '\r' ∉ Nat.toDigits 16 n := by
  obtain ⟨ds, -, hlt, htext, -⟩ := Numeral.exists_digits (by decide : 1 < 16) n
  rw [htext]
  intro hmem
  obtain ⟨d, hd, hdigit⟩ := List.mem_map.mp hmem
  have plain : ∀ d < 16, d.digitChar ≠ '\r' := by decide
  exact plain d (hlt d hd) hdigit

/-- A chunk as servers write it, without extensions. -/
def Chunk.ofData (data : List Char) (nonempty : data ≠ []) (hlt : data.length < 2 ^ 31) :
    Chunk where
  line := Nat.toDigits 16 data.length
  data := data
  alone := breakOn_of_notMem (crlf_notMem_toDigits _) []
  size := by
    have := @stoi16_toDigits data.length hlt [] (by simp)
    rwa [List.append_nil] at this
  nonempty := nonempty

/-- The end of a chunked body as servers write it. -/
def LastChunk.plain : LastChunk where
  line := ['0']
  alone := breakOn_of_notMem (by decide) []
  zero := by decide +kernel

/-- A chunked body. -/
def chunkedText (chunks : List Chunk) (last : LastChunk) : List Char :=
  chunks.flatMap Chunk.text ++ last.text

theorem length_lt_of_size {n : Nat} {line : List Char} (h : stoi16 line = some (n : Int)) :
    n < 2 ^ 31 := by
  rw [stoi16, Option.bind_eq_some_iff] at h
  obtain ⟨m, -, h⟩ := h
  split at h
  · cases h
    omega
  · cases h

/-- The client behind a chunk. -/
def consumed (c : HttpsClient) (data : List Char) : HttpsClient :=
  (((c.sized .chunkContent data.length).received data).enter .chunkTrailer).enter .chunkLen

/-- One chunk is read whole. -/
theorem drain_chunk {c : HttpsClient} (hstate : c.state = .chunkLen) (chunk : Chunk)
    (more : List Char) :
    reader.drain c (chunk.text ++ more) = reader.drain (c.consumed chunk.data) more := by
  have hlt := length_lt_of_size chunk.size
  have hsize : ((chunk.data.length : Int) % 2 ^ 64).toNat = chunk.data.length := by omega
  have hpos : chunk.data.length ≠ 0 := fun h => chunk.nonempty (List.length_eq_zero_iff.mp h)
  have hbreak : breakOn crlf (chunk.text ++ more) = some (chunk.line, chunk.data ++ crlf ++ more) := by
    have := breakOn_append (chunk.data ++ crlf ++ more) chunk.alone
    simpa [Chunk.text] using this
  rw [drain_again (.length hstate hbreak chunk.size (by omega)), hsize]
  have whole : Turned (c.sized .chunkContent chunk.data.length) (chunk.data ++ crlf ++ more)
      (.again (((c.sized .chunkContent chunk.data.length).received chunk.data).enter .chunkTrailer)
        (crlf ++ more)) := by
    have turned : Turned (c.sized .chunkContent chunk.data.length) (chunk.data ++ crlf ++ more) _ :=
      .chunk rfl (by simp [sized])
    simpa [sized] using turned
  rw [drain_again whole, drain_again (.trailer rfl rfl)]
  rfl

/-- **A chunked body is read back.** -/
theorem drain_chunks {c : HttpsClient} (hstate : c.state = .chunkLen) (chunks : List Chunk)
    (last : LastChunk) :
    ∃ c', Grows c c' ∧ InBody c' ∧ c'.body = c.body ++ chunks.flatMap Chunk.data ∧
      reader.drain c (chunkedText chunks last) = .stopped c'.finished := by
  induction chunks generalizing c with
  | nil =>
    have hbreak : breakOn crlf (chunkedText [] last) = some (last.line, crlf) := by
      have := breakOn_append crlf last.alone
      simpa [chunkedText, LastChunk.text] using this
    refine ⟨c.sized .chunkLast 2, grows_sized c _ _, by simp [InBody, sized], by simp [sized], ?_⟩
    rw [drain_again (.lengthZero hstate hbreak last.zero (by simp)), drain_stop (.last rfl rfl)]
  | cons chunk chunks ih =>
    obtain ⟨c', hgrows, hin, hbody, hdrain⟩ := ih (c := c.consumed chunk.data) rfl
    have hfirst : Grows c (c.consumed chunk.data) :=
      (grows_sized c _ _).trans (((grows_received _ _).trans (grows_enter _ _)).trans
        (grows_enter _ _))
    refine ⟨c', hfirst.trans hgrows, hin, ?_, ?_⟩
    · rw [hbody, List.flatMap_cons, ← List.append_assoc]
      rfl
    · rw [chunkedText, List.flatMap_cons, List.append_assoc, drain_chunk hstate]
      exact hdrain

end HttpsClient
