import CordactylBot.Dpp.HttpsClient.Response

/-!
What the handler of a request is told, over whole connections.

* `stands_drain`, `stands_step` — what the reader and the timer keep of a connection.
* `completions_settled` — once, whatever happens, and at the latest when time is up.
* `completions_classified` — with what: every completion there is.
-/

open Incremental Dpp

namespace HttpsClient

def client : Connection → HttpsClient
  | .waiting c _ => c
  | .stopped c => c

def isOpen : Connection → Bool
  | .waiting _ _ => true
  | .stopped _ => false

/-! ### What a connection keeps -/

/-- A status a body may follow. -/
def Bodied (status : UInt16) : Prop :=
  200 ≤ status ∧ status ≠ 204 ∧ status ≠ 304

/-- The code and the headers of a head the client can read. -/
def IsHead (code : Int) (headers : List (List Char × List Char)) : Prop :=
  ∃ text, breakOn headersEnd (text ++ headersEnd) = some (text, []) ∧
    parseHead text = some (code, headers)

/-- What the handler is called with when a status, headers and a body have been read. The
status decides about the error. -/
def told (status : UInt16) (headers : List (List Char × List Char)) (body : List Char) :
    RestCompletion :=
  result { timeout := 0, status, responseHeaders := headers, body }

/-- The completions there are. -/
inductive Classified : RestCompletion → Prop where
  /-- no head came that could be read -/
  | unanswered : Classified (told 0 [] [])
  /-- `stoull` threw at the length: the headers have been read, the status has not -/
  | unmeasured {code : Int} {headers : List (List Char × List Char)} : IsHead code headers →
      readLength headers = none → Classified (told 0 headers [])
  /-- no body follows, or nothing of it came -/
  | bodiless {code : Int} {headers : List (List Char × List Char)} {length : UInt64} :
      IsHead code headers → readLength headers = some length →
      Classified (told (UInt16.ofInt code) headers [])
  /-- what came of the body -/
  | responded {code : Int} {headers : List (List Char × List Char)} {length : UInt64}
      (body : List Char) : IsHead code headers → readLength headers = some length → length ≠ 0 →
      Bodied (UInt16.ofInt code) → Classified (told (UInt16.ofInt code) headers body)

/-- The client is behind a head that announces a body. -/
def Headed (c : HttpsClient) : Prop :=
  ∃ code length, IsHead code c.responseHeaders ∧ readLength c.responseHeaders = some length ∧
    length ≠ 0 ∧ c.status = UInt16.ofInt code ∧ Bodied c.status

/-- A client whose handler waits to be called. -/
structure Open (timeout : Nat) (c : HttpsClient) : Prop where
  state : c.state ≠ .done
  pending : c.pending = true
  completions : c.completions = []
  timedOut : c.timedOut = false
  connected : c.connected = true → c.tcpConnectDone = true
  untouched : c.state = .headers →
    c.status = 0 ∧ c.body = [] ∧ c.responseHeaders = [] ∧ c.timeout = timeout
  headed : c.state ≠ .headers →
    Headed c ∧ c.timeout = timeout + 10 ∧ c.tcpConnectDone = true

/-- A client whose handler has been called. -/
structure Closed (timeout : Nat) (c : HttpsClient) : Prop where
  state : c.state = .done
  pending : c.pending = false
  completions : ∃ r, c.completions = [r] ∧ Classified r
  timeout_le : timeout ≤ c.timeout

def Stands (timeout : Nat) : Connection → Prop
  | .waiting c _ => Open timeout c
  | .stopped c => Closed timeout c

variable {timeout : Nat} {c c' : HttpsClient}

theorem Open.timeout_le (h : Open timeout c) : timeout ≤ c.timeout ∧ c.timeout ≤ timeout + 10 := by
  by_cases hstate : c.state = .headers
  · have := (h.untouched hstate).2.2.2
    omega
  · have := (h.headed hstate).2.1
    omega

theorem result_eq (htimed : c.timedOut = false) :
    c.result = told c.status c.responseHeaders c.body := by
  simp [told, result, getHeader, htimed]

theorem Headed.classified (h : Headed c) (htimed : c.timedOut = false) :
    Classified c.result := by
  obtain ⟨code, length, hhead, hlength, hne, hstatus, hbodied⟩ := h
  rw [hstatus] at hbodied
  rw [result_eq htimed, hstatus]
  exact .responded c.body hhead hlength hne hbodied

/-- Closing a client that was not done calls its handler. -/
theorem closed_close (hstate : c.state ≠ .done) (hpending : c.pending = true)
    (hcompletions : c.completions = []) (hle : timeout ≤ c.timeout) (h : Classified c.result) :
    Closed timeout c.close := by
  refine ⟨rfl, ?_, ⟨c.result, ?_, h⟩, ?_⟩
  · simp [close, hstate, complete, hpending]
  · simp [close, hstate, complete, hpending, hcompletions]
  · simpa [close, hstate, complete, hpending] using hle

theorem closed_finished (hpending : c.pending = true) (hcompletions : c.completions = [])
    (hle : timeout ≤ c.timeout) (h : Classified c.result) : Closed timeout c.finished := by
  refine ⟨rfl, ?_, ⟨c.result, ?_, h⟩, ?_⟩
  · simp [finished, enter, close, complete, hpending]
  · simp [finished, enter, close, complete, hpending, hcompletions]
  · simpa [finished, enter, close, complete, hpending] using hle

theorem Open.classified (h : Open timeout c) : Classified c.result := by
  by_cases hstate : c.state = .headers
  · obtain ⟨hstatus, hbody, hheaders, -⟩ := h.untouched hstate
    rw [result_eq h.timedOut, hstatus, hbody, hheaders]
    exact .unanswered
  · exact (h.headed hstate).1.classified h.timedOut

theorem Open.close (h : Open timeout c) : Closed timeout c.close :=
  closed_close h.state h.pending h.completions h.timeout_le.1 h.classified

theorem Open.finished (h : Open timeout c) : Closed timeout c.finished :=
  closed_finished h.pending h.completions h.timeout_le.1 h.classified

theorem Open.of_grows (h : Open timeout c) (hin : InBody c) (hgrows : Grows c c')
    (hin' : InBody c') : Open timeout c' := by
  obtain ⟨hheaded, htimeout, htcp⟩ := h.headed hin.1
  have hheaded' : Headed c' := by
    rwa [Headed, hgrows.responseHeaders, hgrows.status]
  exact ⟨hin'.2, hgrows.pending.trans h.pending, hgrows.completions.trans h.completions,
    hgrows.timedOut.trans h.timedOut, fun _ => hgrows.tcpConnectDone.trans htcp,
    fun hstate => absurd hstate hin'.1,
    fun _ => ⟨hheaded', hgrows.timeout.trans htimeout, hgrows.tcpConnectDone.trans htcp⟩⟩

/-- What the head of a response does not touch. -/
structure HeadKept (c c' : HttpsClient) : Prop where
  state : c'.state = c.state ∨ c'.state = .chunkLen
  body : c'.body = c.body
  timeout : c'.timeout = c.timeout
  timedOut : c'.timedOut = c.timedOut
  tcpConnectDone : c'.tcpConnectDone = c.tcpConnectDone
  connected : c'.connected = c.connected
  pending : c'.pending = c.pending
  completions : c'.completions = c.completions

theorem readHead_kept {head : List Char} {accepted : Bool}
    (h : c.readHead head = (c', accepted)) : HeadKept c c' := by
  unfold readHead at h
  split at h
  · cases h
    exact ⟨.inl rfl, rfl, rfl, rfl, rfl, rfl, rfl, rfl⟩
  · dsimp only at h
    split at h
    · cases h
      exact ⟨.inl rfl, rfl, rfl, rfl, rfl, rfl, rfl, rfl⟩
    · split at h
      · cases h
        exact ⟨.inr rfl, rfl, rfl, rfl, rfl, rfl, rfl, rfl⟩
      · cases h
        exact ⟨.inl rfl, rfl, rfl, rfl, rfl, rfl, rfl, rfl⟩

theorem not_bodiless (h : ¬ c.bodiless) : Bodied c.status := by
  rw [bodiless, not_or, not_or, not_or] at h
  exact ⟨UInt16.not_lt.mp h.2.1, h.1, h.2.2.1⟩

/-- What a head does to a client that has read none: it is none, or it has no length, or its
status and headers are taken. -/
theorem readHead_cases {head : List Char} {accepted : Bool} (hheaders : c.responseHeaders = [])
    (h : c.readHead head = (c', accepted)) :
    (parseHead head = none ∧ accepted = false ∧ c' = c) ∨
    ∃ code headers, parseHead head = some (code, headers) ∧ c'.responseHeaders = headers ∧
      ((accepted = false ∧ readLength headers = none ∧ c'.status = c.status) ∨
        (accepted = true ∧ readLength headers = some c'.contentLength ∧
          c'.status = UInt16.ofInt code)) := by
  unfold readHead at h
  split at h
  · rename_i hparse
    cases h
    exact .inl ⟨hparse, rfl, rfl⟩
  · rename_i code headers hparse
    rw [hheaders, List.nil_append] at h
    dsimp only at h
    refine .inr ⟨code, headers, hparse, ?_⟩
    split at h
    · rename_i hlength
      cases h
      exact ⟨rfl, .inl ⟨rfl, hlength, rfl⟩⟩
    · rename_i length hlength
      split at h
      · cases h
        exact ⟨rfl, .inr ⟨rfl, hlength, rfl⟩⟩
      · cases h
        exact ⟨rfl, .inr ⟨rfl, hlength, rfl⟩⟩

/-- A client that has read the head of a response, and nothing behind it. -/
theorem Open.read_head (h : Open timeout c) (hstate : c.state = .headers)
    {buffer head rest : List Char} {accepted : Bool}
    (hbreak : breakOn headersEnd buffer = some (head, rest))
    (hread : c.extended.readHead head = (c', accepted)) :
    Classified c'.result ∧ (accepted = true → ¬ c'.bodiless → Headed c') := by
  obtain ⟨hstatus, hbody, hheaders, -⟩ := h.untouched hstate
  have hstatus : c.extended.status = 0 := hstatus
  have hheaders : c.extended.responseHeaders = [] := hheaders
  have hkept := readHead_kept hread
  have hbody' : c'.body = [] := hkept.body.trans hbody
  rw [result_eq (hkept.timedOut.trans h.timedOut), hbody']
  obtain ⟨-, rfl, rfl⟩ | ⟨code, headers, hparse, hheaders', ⟨rfl, hlength, hstatus'⟩ |
      ⟨rfl, hlength, hstatus'⟩⟩ := readHead_cases hheaders hread
  · refine ⟨?_, fun h => absurd h Bool.false_ne_true⟩
    rw [hstatus, hheaders]
    exact .unanswered
  · refine ⟨?_, fun h => absurd h Bool.false_ne_true⟩
    rw [hstatus', hstatus, hheaders']
    exact .unmeasured ⟨head, breakOn_before hbreak, hparse⟩ hlength
  · rw [hstatus', hheaders']
    refine ⟨.bodiless ⟨head, breakOn_before hbreak, hparse⟩ hlength, fun _ hbodied => ?_⟩
    refine ⟨code, c'.contentLength, ?_, ?_, ?_, hstatus', not_bodiless hbodied⟩
    · rw [hheaders']
      exact ⟨head, breakOn_before hbreak, hparse⟩
    · rw [hheaders', hlength]
    · exact fun hzero => hbodied (.inr (.inr (.inr hzero)))

/-- The head ends the connection: there is no body yet. -/
theorem Open.close_head (h : Open timeout c) (hstate : c.state = .headers)
    (hkept : HeadKept c.extended c') (hclass : Classified c'.result) : Closed timeout c'.close := by
  obtain ⟨-, -, -, htimeout⟩ := h.untouched hstate
  have hstate' : c'.state ≠ .done := by
    rcases hkept.state with hs | hs
    · rw [hs]
      exact h.state
    · simp [hs]
  refine closed_close hstate' (hkept.pending.trans h.pending)
    (hkept.completions.trans h.completions) ?_ hclass
  rw [hkept.timeout, extended, htimeout]
  exact Nat.le_add_right _ _

/-- The head goes before a body. -/
theorem Open.headed_open (h : Open timeout c) (hstate : c.state = .headers)
    (htcp : c.tcpConnectDone = true) (hkept : HeadKept c.extended c') (hheaded : Headed c')
    (state : HttpState) (hne : state ≠ .headers ∧ state ≠ .done) :
    Open timeout (c'.enter state) := by
  refine ⟨hne.2, hkept.pending.trans h.pending, hkept.completions.trans h.completions,
    hkept.timedOut.trans h.timedOut, fun _ => hkept.tcpConnectDone.trans htcp,
    fun hs => absurd hs hne.1, fun _ => ⟨hheaded, ?_, hkept.tcpConnectDone.trans htcp⟩⟩
  have : (c'.enter state).timeout = c.timeout + 10 := hkept.timeout
  rw [this, (h.untouched hstate).2.2.2]

theorem enter_self {state : HttpState} (h : c.state = state) : c.enter state = c := by
  subst h
  rfl

theorem Open.went (h : Open timeout c) (hin : InBody c) {at_ : Connection} (hw : Went c at_) :
    Stands timeout at_ := by
  cases hw with
  | waiting hgrows hin' => exact h.of_grows hin hgrows hin'
  | finished hgrows hin' => exact (h.of_grows hin hgrows hin').finished
  | closed hgrows hin' => exact (h.of_grows hin hgrows hin').close

/-- **The reader keeps the connection.** -/
theorem stands_drain (h : Open timeout c) (htcp : c.tcpConnectDone = true) (input : List Char) :
    Stands timeout (reader.drain c input) := by
  by_cases hstate : c.state = .headers
  · obtain ⟨t, ht⟩ := exists_turned c input
    cases ht with
    | headLater hs hbreak =>
      rw [drain_wait (.headLater hs hbreak)]
      exact h
    | refused hs hbreak hread =>
      rw [drain_stop (.refused hs hbreak hread)]
      exact h.close_head hstate (readHead_kept hread) (h.read_head hstate hbreak hread).1
    | bodiless hs hbreak hread hbody =>
      rw [drain_stop (.bodiless hs hbreak hread hbody)]
      exact h.close_head hstate (readHead_kept hread) (h.read_head hstate hbreak hread).1
    | @counted head rest c₁ hs hbreak hread hbody hchunked =>
      rw [drain_again (.counted hs hbreak hread hbody hchunked)]
      have ho := h.headed_open hstate htcp (readHead_kept hread)
        ((h.read_head hstate hbreak hread).2 rfl hbody)
        .content (by decide)
      have hin : InBody (c₁.enter .content) := ⟨by simp [enter], by simp [enter]⟩
      exact ho.went hin (went_drain hin rest)
    | @chunks head rest c₁ hs hbreak hread hbody hchunked hrest =>
      have hlen := readHead_chunked hread hchunked
      have ho := h.headed_open hstate htcp (readHead_kept hread)
        ((h.read_head hstate hbreak hread).2 rfl hbody)
        .chunkLen (by decide)
      rw [enter_self hlen] at ho
      rw [drain_again (.chunks hs hbreak hread hbody hchunked hrest)]
      have hin : InBody c₁ := ⟨by simp [hlen], by simp [hlen]⟩
      exact ho.went hin (went_drain hin rest)
    | @chunksLater head c₁ hs hbreak hread hbody hchunked =>
      have ho := h.headed_open hstate htcp (readHead_kept hread)
        ((h.read_head hstate hbreak hread).2 rfl hbody)
        .chunkLen (by decide)
      rw [enter_self (readHead_chunked hread hchunked)] at ho
      rw [drain_wait (.chunksLater hs hbreak hread hbody hchunked)]
      exact ho
    | _ => simp_all only [reduceCtorEq]
  · have hin : InBody c := ⟨hstate, h.state⟩
    exact h.went hin (went_drain hin input)

/-! ### What a step keeps -/

theorem Open.oneSecondTimer (h : Open timeout c) (now : Nat) (buffer : List Char) :
    Stands timeout (ticked (c.oneSecondTimer now) buffer) := by
  have late : ∀ {c' : HttpsClient}, Closed timeout c' → ∀ t : Bool,
      Stands timeout (ticked { c' with timedOut := t } buffer) := by
    intro c' hc t
    rw [ticked, if_pos hc.state]
    exact ⟨hc.state, hc.pending, hc.completions, hc.timeout_le⟩
  unfold HttpsClient.oneSecondTimer
  split
  · rename_i hfirst
    -- no byte has been read: the handler is told of a failed connection
    have hstate : c.state = .headers := by
      by_contra hne
      exact hfirst.1 (h.headed hne).2.2
    obtain ⟨hstatus, hbody, hheaders, -⟩ := h.untouched hstate
    have hclass : Classified (result { c with timedOut := true }) := by
      have unanswered : result { c with timedOut := true } = told 0 [] [] := by
        simp [told, result, getHeader, hstatus, hbody, hheaders]
      rw [unanswered]
      exact .unanswered
    have hclosed : Closed timeout { c with timedOut := true }.close :=
      closed_close h.state h.pending h.completions h.timeout_le.1 hclass
    rw [ticked, if_pos hclosed.state]
    exact hclosed
  · split
    · exact late h.close true
    · split
      · exact late h.close true
      · rw [ticked, if_neg h.state]
        exact h

theorem Closed.oneSecondTimer (h : Closed timeout c) (now : Nat) :
    Closed timeout (c.oneSecondTimer now) ∧
      (c.oneSecondTimer now).completions = c.completions := by
  unfold HttpsClient.oneSecondTimer
  split
  · exact ⟨⟨rfl, by simpa [close, h.state] using h.pending,
      by simpa [close, h.state] using h.completions,
      by simpa [close, h.state] using h.timeout_le⟩, by simp [close, h.state]⟩
  · rw [if_neg (by simp [h.state]), if_neg (by simp [h.state])]
    exact ⟨h, rfl⟩

theorem stands_step {conn conn' : Connection} {event : SocketEvent}
    (h : Stands timeout conn) (hstep : step conn event = some conn') : Stands timeout conn' := by
  cases conn with
  | waiting c buffer =>
    have ho : Open timeout c := h
    cases event with
    | tcpConnected =>
      cases hstep
      exact ⟨ho.state, ho.pending, ho.completions, ho.timedOut, fun _ => rfl, ho.untouched,
        fun hs => ⟨(ho.headed hs).1, (ho.headed hs).2.1, rfl⟩⟩
    | connected =>
      rw [step] at hstep
      split at hstep
      · rename_i htcp
        cases hstep
        exact ⟨ho.state, ho.pending, ho.completions, ho.timedOut, fun _ => htcp, ho.untouched,
          ho.headed⟩
      · cases hstep
    | read bytes =>
      rw [step] at hstep
      split at hstep
      · rename_i hconnected
        cases hstep
        exact stands_drain ho (ho.connected hconnected.1) _
      · cases hstep
    | failed =>
      cases hstep
      exact ho.close
    | tick now =>
      cases hstep
      exact ho.oneSecondTimer now buffer
  | stopped c =>
    cases event with
    | tick now =>
      cases hstep
      exact (Closed.oneSecondTimer h now).1
    | tcpConnected | connected | read bytes | failed =>
      cases hstep
      exact h

theorem stands_start (timeout : Nat) : Stands timeout (system timeout).start :=
  ⟨nofun, rfl, rfl, rfl, nofun, fun _ => ⟨rfl, rfl, rfl, rfl⟩, fun h => absurd rfl h⟩

theorem stands_run {conn conn' : Connection} {events : List SocketEvent} (h : Stands timeout conn)
    (hrun : (system timeout).run conn events = some conn') : Stands timeout conn' := by
  have kept : (system timeout).Preserved (Stands timeout) := fun _ _ _ hs hstep =>
    stands_step hs hstep
  exact kept.run h hrun

/-- **A closed connection stays closed**, and its handler is not called again. -/
theorem run_stopped {conn : Connection} {events : List SocketEvent} (h : Closed timeout c)
    (hrun : (system timeout).run (.stopped c) events = some conn) :
    ∃ c', conn = .stopped c' ∧ c'.completions = c.completions := by
  have kept : (system timeout).Preserved fun conn =>
      ∃ c', conn = .stopped c' ∧ Closed timeout c' ∧ c'.completions = c.completions := by
    rintro _ event conn' ⟨c', rfl, hclosed, hsame⟩ hstep
    cases event with
    | tick now =>
      cases hstep
      obtain ⟨hclosed', hsame'⟩ := hclosed.oneSecondTimer now
      exact ⟨_, rfl, hclosed', hsame'.trans hsame⟩
    | tcpConnected | connected | read bytes | failed =>
      cases hstep
      exact ⟨c', rfl, hclosed, hsame⟩
  obtain ⟨c', hconn, -, hsame⟩ := kept.run ⟨c, rfl, h, rfl⟩ hrun
  exact ⟨c', hconn, hsame⟩

theorem ticked_late {now : Nat} (h : Open timeout c) (hnow : timeout + 10 ≤ now)
    (buffer : List Char) :
    ∃ c', ticked (c.oneSecondTimer now) buffer = .stopped c' ∧
      (c.tcpConnectDone = true → c'.completions = [c.result]) := by
  have hle : c.timeout ≤ now := Nat.le_trans h.timeout_le.2 hnow
  have hclose : c.close.completions = [c.result] := by
    simp [close, h.state, complete, h.pending, h.completions]
  unfold oneSecondTimer
  split
  · rename_i hfirst
    exact ⟨_, if_pos rfl, fun htcp => absurd htcp hfirst.1⟩
  · split
    · exact ⟨_, if_pos rfl, fun _ => hclose⟩
    · rw [if_pos ⟨hle, h.state⟩]
      exact ⟨_, if_pos rfl, fun _ => hclose⟩

/-- **The handler is called once**: not while the connection is open, once when it is closed,
which it is ten seconds after the time is up, and never again. -/
theorem completions_settled {events : List SocketEvent} {conn : Connection}
    (hrun : (system timeout).run (system timeout).start events = some conn) :
    ((client conn).completions.length = if isOpen conn then 0 else 1) ∧
      (∀ now, .tick now ∈ events → timeout + 10 ≤ now → isOpen conn = false) ∧
      ∀ more conn', (system timeout).run conn more = some conn' →
        (client conn).completions <+: (client conn').completions := by
  have hstands := stands_run (stands_start timeout) hrun
  refine ⟨?_, ?_, ?_⟩
  · cases conn with
    | waiting c buffer =>
      have ho : Open timeout c := hstands
      simp [client, isOpen, ho.completions]
    | stopped c =>
      obtain ⟨r, hr, -⟩ := Closed.completions hstands
      simp [client, isOpen, hr]
  · intro now hmem hnow
    obtain ⟨before, after, rfl⟩ := List.append_of_mem hmem
    obtain ⟨conn₁, hbefore, hafter⟩ := Transition.System.run_append _ |>.mp hrun
    obtain ⟨conn₂, htick, hafter⟩ := Transition.System.run_cons _ |>.mp hafter
    have hstands₁ := stands_run (stands_start timeout) hbefore
    have hstands₂ := stands_step hstands₁ htick
    obtain ⟨c₂, rfl⟩ : ∃ c₂, conn₂ = .stopped c₂ := by
      cases conn₁ with
      | waiting c₁ buffer =>
        obtain ⟨c₂, hc₂, -⟩ := ticked_late hstands₁ hnow buffer
        exact ⟨c₂, (Option.some.inj htick).symm.trans hc₂⟩
      | stopped c₁ => exact ⟨_, (Option.some.inj htick).symm⟩
    obtain ⟨c', rfl, -⟩ := run_stopped hstands₂ hafter
    rfl
  · intro more conn' hmore
    cases conn with
    | waiting c buffer =>
      have ho : Open timeout c := hstands
      simp [client, ho.completions]
    | stopped c =>
      obtain ⟨c', rfl, hsame⟩ := run_stopped hstands hmore
      simp [client, hsame]

/-- The input comes at once. -/
theorem run_read (timeout : Nat) {bytes : List Char} (hbytes : bytes ≠ []) :
    (system timeout).run (system timeout).start [.tcpConnected, .connected, .read bytes] =
      some (reader.drain (opened timeout) bytes) := by
  have hread : step (.waiting (opened timeout) []) (.read bytes) =
      some (reader.drain (opened timeout) bytes) := if_pos ⟨rfl, hbytes⟩
  exact (Transition.System.run_cons _).mpr ⟨_, rfl, (Transition.System.run_cons _).mpr
    ⟨_, rfl, (Transition.System.run_cons _).mpr ⟨_, hread, rfl⟩⟩⟩

/-- The body of a response does not come in full, and the timer looks at the clock twice. -/
def partOfResponse : List Char :=
  "HTTP/1.1 200 OK\r\nContent-Length: 5\r\n\r\nhe".toList

theorem tick_enabled (conn : Connection) (now : Nat) : ∃ conn', step conn (.tick now) = some conn' :=
  match conn with
  | .waiting c buffer => ⟨ticked (c.oneSecondTimer now) buffer, rfl⟩
  | .stopped c => ⟨.stopped (c.oneSecondTimer now), rfl⟩

theorem completions_settled_part : ∃ conn,
    (system 5).run (system 5).start
        [.tcpConnected, .connected, .read partOfResponse, .tick 15, .tick 16] = some conn ∧
      isOpen conn = false ∧ (client conn).completions.length = 1 := by
  obtain ⟨conn₁, htick₁⟩ := tick_enabled (reader.drain (opened 5) partOfResponse) 15
  obtain ⟨conn, htick⟩ := tick_enabled conn₁ 16
  have hrun : (system 5).run (system 5).start
      ([.tcpConnected, .connected, .read partOfResponse] ++ [.tick 15, .tick 16]) = some conn :=
    (Transition.System.run_append _).mpr ⟨_, run_read 5 (by decide),
      (Transition.System.run_cons _).mpr ⟨_, htick₁,
        (Transition.System.run_cons _).mpr ⟨_, htick, rfl⟩⟩⟩
  obtain ⟨hlength, hlate, -⟩ := completions_settled hrun
  have hclosed := hlate 15 (by decide) (by decide)
  exact ⟨conn, hrun, hclosed, by rw [hlength, hclosed]; rfl⟩

/-! ### What occurs -/

/-- What the handler is called with keeps to `Classified`. -/
theorem classified_of_run {events : List SocketEvent} {conn : Connection}
    (hrun : (system timeout).run (system timeout).start events = some conn) :
    ∀ r ∈ (client conn).completions, Classified r := by
  have hstands := stands_run (stands_start timeout) hrun
  cases conn with
  | waiting c buffer =>
    have ho : Open timeout c := hstands
    simp [client, ho.completions]
  | stopped c =>
    obtain ⟨r, hr, hclass⟩ := Closed.completions hstands
    simpa [client, hr] using hclass

/-- A handler of a request that was given until `timeout` can be called with this. -/
def Occurs (timeout : Nat) (r : RestCompletion) : Prop :=
  ∃ events conn, (system timeout).run (system timeout).start events = some conn ∧
    r ∈ (client conn).completions

/-- The input comes at once, and then the connection fails. -/
theorem occurs_of_drain {bytes : List Char} (hbytes : bytes ≠ []) {r : RestCompletion}
    (h : (∃ c, reader.drain (opened timeout) bytes = .stopped c ∧ r ∈ c.completions) ∨
      ∃ c rest, reader.drain (opened timeout) bytes = .waiting c rest ∧
        r ∈ c.close.completions) : Occurs timeout r := by
  have fed := run_read timeout hbytes
  obtain ⟨c, hdrain, hr⟩ | ⟨c, rest, hdrain, hr⟩ := h
  · exact ⟨_, .stopped c, hdrain ▸ fed, hr⟩
  · refine ⟨_ ++ [.failed], .stopped c.close, (Transition.System.run_append _).mpr ⟨_, fed, ?_⟩, hr⟩
    rw [hdrain]
    rfl

/-- A client that stops with its handler uncalled has called it once closed. -/
theorem mem_close {c : HttpsClient} (hstate : c.state ≠ .done) (hpending : c.pending = true) :
    c.result ∈ c.close.completions := by
  simp [close, hstate, complete, hpending]

/-- A head that ends the connection is read. -/
theorem occurs_of_head {text : List Char} {c : HttpsClient} {accepted : Bool}
    (halone : breakOn headersEnd (text ++ headersEnd) = some (text, []))
    (hread : (opened timeout).extended.readHead text = (c, accepted))
    (hstops : accepted = true → c.bodiless) : Occurs timeout c.result := by
  have hkept := readHead_kept hread
  have hdone : c.state ≠ .done := by
    rcases hkept.state with hs | hs <;> simp [hs, extended, opened]
  have hdrain : reader.drain (opened timeout) (text ++ headersEnd) = .stopped c.close := by
    cases accepted with
    | false => exact drain_stop (.refused rfl halone hread)
    | true => exact drain_stop (.bodiless rfl halone hread (hstops rfl))
  exact occurs_of_drain (by simp [headersEnd]) (.inl ⟨_, hdrain, mem_close hdone hkept.pending⟩)

/-- One chunk for each byte. -/
def bytewise (body : List Char) : List Chunk :=
  body.map fun b => .ofData [b] (by simp) (by simp)

theorem data_bytewise (body : List Char) : (bytewise body).flatMap Chunk.data = body := by
  simp [bytewise, List.flatMap_map, Chunk.ofData]

/-- A response comes, with any body: in chunks of one byte, or cut where its length is not
reached. -/
theorem occurs_responded (head : ResponseHead) (body : List Char) :
    Occurs timeout (head.completion body) := by
  have fresh := fresh_opened timeout
  have hne : ∀ tail : List Char, head.text ++ headersEnd ++ tail ≠ [] := by simp [headersEnd]
  cases hchunked : readChunked head.headers with
  | true =>
    obtain ⟨c, hdrain, hcompletions⟩ :=
      drain_chunked fresh head hchunked (bytewise body) .plain []
    rw [data_bytewise] at hcompletions
    exact occurs_of_drain (hne _) (.inl ⟨c, hdrain, hcompletions ▸ List.mem_singleton_self _⟩)
  | false =>
    have hstate : (head.taken (opened timeout)).state = .content := by
      simp [ResponseHead.taken, hchunked]
    have hgrows := grows_appended (head.taken (opened timeout)) body
    have hbody : ((head.taken (opened timeout)).appended body).body = body := rfl
    by_cases hwhole : (head.taken (opened timeout)).contentLength = unknownLength ∨
        ((head.taken (opened timeout)).body ++ body).length ≥
          (head.taken (opened timeout)).contentLength.toNat
    · have hdrain := drain_stop (.content hstate hwhole)
      rw [← drain_head fresh] at hdrain
      refine occurs_of_drain (hne body) (.inl ⟨_, hdrain, ?_⟩)
      rw [completions_of_grows fresh hgrows, hbody]
      exact List.mem_singleton_self _
    · have hdrain := drain_wait (.contentPart hstate hwhole)
      rw [← drain_head fresh] at hdrain
      refine occurs_of_drain (hne body) (.inr ⟨_, _, hdrain, ?_⟩)
      have hresult := result_of_grows fresh hgrows
      rw [hbody] at hresult
      rw [← hresult]
      exact mem_close (by simp [appended, hstate]) rfl

/-- A head comes, and nothing of a body: it has no length, or there is no body, or the
connection fails in front of it. -/
theorem occurs_head {code : Int} {headers : List (List Char × List Char)}
    (hhead : IsHead code headers) :
    (readLength headers = none → Occurs timeout (told 0 headers [])) ∧
    ∀ length, readLength headers = some length →
      Occurs timeout (told (UInt16.ofInt code) headers []) := by
  obtain ⟨text, halone, hparse⟩ := hhead
  obtain ⟨⟨c, accepted⟩, hread⟩ : ∃ r, (opened timeout).extended.readHead text = r := ⟨_, rfl⟩
  have hkept := readHead_kept hread
  have hresult : c.result = told c.status c.responseHeaders [] := by
    rw [result_eq hkept.timedOut, hkept.body]
    rfl
  obtain ⟨hnone, -⟩ | ⟨code', headers', hparse', hheaders, hcases⟩ := readHead_cases rfl hread
  · rw [hparse] at hnone
    cases hnone
  · rw [hparse] at hparse'
    cases hparse'
    rw [hheaders] at hresult
    obtain ⟨rfl, hnone, hstatus⟩ | ⟨rfl, hsome, hstatus⟩ := hcases
    · rw [show c.status = 0 from hstatus] at hresult
      refine ⟨fun _ => ?_, fun length hsome => absurd (hnone.symm.trans hsome) (by simp)⟩
      exact hresult ▸ occurs_of_head halone hread fun h => absurd h Bool.false_ne_true
    · refine ⟨fun hnone => absurd (hsome.symm.trans hnone) (by simp), fun length _ => ?_⟩
      rw [hstatus] at hresult
      by_cases hbody : c.bodiless
      · exact hresult ▸ occurs_of_head halone hread fun _ => hbody
      · have hbodied := not_bodiless hbody
        rw [hstatus] at hbodied
        have hne : c.contentLength ≠ 0 := fun hzero => hbody (.inr (.inr (.inr hzero)))
        exact occurs_responded
          ⟨text, halone, code, headers, hparse, c.contentLength, hsome, hne, hbodied⟩ []

/-- **Every completion a handler is called with.** Nothing of a response, and the error of a
failed connection; or the status and the figures of a head that came, without the status when
its length is no number; and behind a status that one may follow, what came of the body. The
error is that of a failed connection exactly for a status below 100. -/
theorem completions_classified (timeout : Nat) (r : RestCompletion) :
    (Occurs timeout r ↔ Classified r) ∧
    (Classified r → r.error = (if r.status < 100 then .connection else .success) ∧
      (r.body ≠ "" → Bodied r.status)) := by
  refine ⟨⟨?_, ?_⟩, ?_⟩
  · rintro ⟨events, conn, hrun, hr⟩
    exact classified_of_run hrun r hr
  · intro h
    cases h with
    | unanswered => exact ⟨[.failed], _, rfl, List.mem_singleton_self _⟩
    | unmeasured hhead hlength => exact (occurs_head hhead).1 hlength
    | bodiless hhead hlength => exact (occurs_head hhead).2 _ hlength
    | responded body hhead hlength hne hbodied =>
      obtain ⟨text, halone, hparse⟩ := hhead
      exact occurs_responded ⟨text, halone, _, _, hparse, _, hlength, hne, hbodied⟩ body
  · intro h
    cases h with
    | unanswered | unmeasured | bodiless => exact ⟨rfl, fun hbody => absurd rfl hbody⟩
    | responded body _ _ _ hbodied => exact ⟨rfl, fun _ => hbodied⟩

/-- A code of two digits is told with the error of a failed connection, and so are the figures of
a head whose length is no number. -/
example : parseHead "HTTP/1.1 42 X".toList = some (42, []) ∧
    told 42 [] [] = { status := 42, error := .connection } := by
  decide +kernel

example : ∃ headers, parseHead
      "HTTP/1.1 200 OK\r\nX-RateLimit-Limit: 5\r\nContent-Length: abc".toList =
        some (200, headers) ∧
    readLength headers = none ∧
    told 0 headers [] = { error := .connection, ratelimitLimit := 5 } :=
  ⟨[("x-ratelimit-limit".toList, "5".toList), ("content-length".toList, "abc".toList)],
    by decide +kernel⟩

end HttpsClient
