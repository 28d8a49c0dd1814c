import CordactylBot.Lifecycle.Startup

/-!
In which order acknowledgements are posted.

At most one startup acknowledgement should come first, then plain ones, then at most
one shutdown acknowledgement, and nothing after it. The first half always holds. The
second does not: the shutdown acknowledgement is posted by the signal handler and by a
refused token, and neither stops everything that posts. The signal handler stops the
acknowledge timer by the handle known at that moment, which is none before the startup
has finished, so the startup goes on; a second signal posts again; and a refused token
stops no timer at all.

* `ordered_iff` — a run keeps the order exactly if none of its steps posts once the
  shutdown has been asked for.
* `signal_before_startup` — a signal that comes while the application is fetched.
-/

namespace Lifecycle

open Lifecycle.Bot

variable {P : Platform} {isCentral : Bool}

/-! ### The order -/

/-- At most one startup acknowledgement, plain ones, at most one shutdown acknowledgement. -/
def Ordered (kinds : List Kind) : Prop :=
  ∃ startup plain shutdown, kinds = startup ++ plain ++ shutdown ∧
    (startup = [] ∨ startup = [.startup]) ∧ (∀ kind ∈ plain, kind = .plain) ∧
    (shutdown = [] ∨ shutdown = [.shutdown])

/-- What the order says about two acknowledgements. -/
def Before (first second : Kind) : Prop :=
  first ≠ .shutdown ∧ second ≠ .startup

instance (first second : Kind) : Decidable (Before first second) :=
  inferInstanceAs (Decidable (_ ∧ _))

theorem ordered_iff_pairwise (kinds : List Kind) : Ordered kinds ↔ kinds.Pairwise Before := by
  constructor
  · rintro ⟨startup, plain, shutdown, rfl, hstartup, hplain, hshutdown⟩
    have plains : plain.Pairwise Before := by
      apply List.pairwise_of_forall_mem_list
      intro a ha b hb
      rw [hplain a ha, hplain b hb]
      constructor <;> decide
    rw [List.append_assoc, List.pairwise_append, List.pairwise_append]
    refine ⟨?_, ⟨plains, ?_, ?_⟩, ?_⟩
    · rcases hstartup with rfl | rfl <;> simp
    · rcases hshutdown with rfl | rfl <;> simp
    · intro a ha b hb
      rw [hplain a ha]
      rcases hshutdown with rfl | rfl
      · cases hb
      · rw [List.mem_singleton.mp hb]
        constructor <;> decide
    · intro a ha b hb
      have hfirst : a = .startup := by
        rcases hstartup with rfl | rfl
        · cases ha
        · exact List.mem_singleton.mp ha
      rw [hfirst]
      refine ⟨by decide, ?_⟩
      rcases List.mem_append.mp hb with hb | hb
      · rw [hplain b hb]
        decide
      · rcases hshutdown with rfl | rfl
        · cases hb
        · rw [List.mem_singleton.mp hb]
          decide
  · intro h
    induction kinds with
    | nil => exact ⟨[], [], [], rfl, .inl rfl, by simp, .inl rfl⟩
    | cons kind rest ih =>
      obtain ⟨hkind, hrest⟩ := List.pairwise_cons.mp h
      obtain ⟨startup, plain, shutdown, rfl, hstartup, hplain, hshutdown⟩ := ih hrest
      have later : startup = [] := by
        rcases hstartup with rfl | rfl
        · rfl
        · exact absurd rfl (hkind .startup (by simp)).2
      subst later
      cases kind with
      | startup => exact ⟨[.startup], plain, shutdown, rfl, .inr rfl, hplain, hshutdown⟩
      | plain =>
        refine ⟨[], .plain :: plain, shutdown, rfl, .inl rfl, ?_, hshutdown⟩
        intro kind hmem
        rcases List.mem_cons.mp hmem with rfl | hmem
        · rfl
        · exact hplain kind hmem
      | shutdown =>
        have none : plain ++ shutdown = [] := by
          apply List.eq_nil_iff_forall_not_mem.mpr
          intro kind hmem
          exact (hkind kind hmem).1 rfl
        exact ⟨[], [], [.shutdown], by simp [none], .inl rfl, by simp, .inr rfl⟩

theorem ordered_concat {kinds : List Kind} {kind : Kind} :
    Ordered (kinds ++ [kind]) ↔ Ordered kinds ∧ ∀ first ∈ kinds, Before first kind := by
  rw [ordered_iff_pairwise, ordered_iff_pairwise, List.pairwise_append]
  simp

/-! ### What a step posts -/

/-- The acknowledgement a step posts: the startup's when the application has come, a
plain one when the acknowledge timer is due and has not been stopped, the one of the
shutdown on a signal and when the token is refused in tenant mode. -/
def acknowledgementOf (P : Platform) (isCentral : Bool) (b : Bot) : Label → Option Kind
  | .completed n response _ _ =>
      match b.requests[n]? with
      | some (.fetch true) =>
          if (AcknowledgePayload.parsedApplication P response).isOk then some .startup else none
      | some (.acknowledgement _) =>
          if response.status = 401 ∧ isCentral = false then some .shutdown else none
      | _ => none
  | .tick handle =>
      if b.timers.nextTimer[handle]? = some .acknowledge ∧ handle ∉ b.timers.deletedTimers then
        some .plain
      else none
  | .signal _ => some .shutdown
  | _ => none

/-- The signal handler has run, or the token was refused in tenant mode. -/
def stopping (isCentral : Bool) (log : List Event) : Bool :=
  log.any fun
    | .signalled _ => true
    | .replied response => response.status = 401 && !isCentral
    | _ => false

theorem stopping_append (new log : List Event) :
    stopping isCentral (new ++ log) = (stopping isCentral new || stopping isCentral log) :=
  List.any_append

theorem stopping_lines (lines : List String) : stopping isCentral (lines.map .logged) = false := by
  apply List.any_eq_false.mpr
  intro e he
  obtain ⟨line, rfl⟩ := mem_lines he
  exact Bool.false_ne_true

theorem stopping_quiet {new : List Event} (h : Quiet new) : stopping isCentral new = false := by
  apply List.any_eq_false.mpr
  intro e he
  rcases h e he with ⟨line, rfl⟩ | ⟨x, rfl⟩ <;> exact Bool.false_ne_true

theorem lines_not_posted (lines : List String) :
    ∀ e ∈ lines.map Event.logged, postedKind e = none := by
  intro e he
  obtain ⟨line, rfl⟩ := mem_lines he
  rfl

/-- What a step adds to the log: what it posts, and the shutdown is asked for exactly
when it posts the shutdown acknowledgement. -/
structure Logged (isCentral : Bool) (b b' : Bot) (kind : Option Kind) : Prop where
  posts : posts b'.log = posts b.log ++ kind.toList
  stopping : stopping isCentral b'.log = true ↔
    stopping isCentral b.log = true ∨ kind = some .shutdown

theorem logged_of_append {b b' : Bot} {kind : Option Kind} (new : List Event)
    (hlog : b'.log = new ++ b.log) (hposts : new.filterMap postedKind = kind.toList)
    (hstopping : stopping isCentral new = decide (kind = some .shutdown)) :
    Logged isCentral b b' kind := by
  constructor
  · rw [hlog, Lifecycle.posts, List.filterMap_append, hposts, List.reverse_append]
    cases kind <;> rfl
  · rw [hlog, stopping_append, hstopping, Bool.or_eq_true, decide_eq_true_eq, or_comm]

/-- More lines are logged. -/
theorem Logged.lines {b b₁ b' : Bot} {kind : Option Kind} {lines : List String}
    (h : Logged isCentral b b₁ kind) (hlog : b'.log = lines.map Event.logged ++ b₁.log) :
    Logged isCentral b b' kind := by
  constructor
  · rw [hlog, posts_append (lines_not_posted lines)]
    exact h.posts
  · rw [hlog, stopping_append, stopping_lines, Bool.false_or]
    exact h.stopping

/-- What is logged when a reply comes. -/
def repliedEvents (response : HttpRequestCompletion) : List Event :=
  ((AcknowledgePayload.statusLines response).map Event.logged).reverse ++ [.replied response]

theorem replied_log (b : Bot) (n : Nat) (response : HttpRequestCompletion) :
    ((b.taken n).replied response).log = repliedEvents response ++ b.log := by
  rw [repliedEvents, List.append_assoc]
  rfl

theorem replied_not_posted (response : HttpRequestCompletion) :
    ∀ e ∈ repliedEvents response, postedKind e = none := by
  intro e he
  rcases List.mem_append.mp he with he | he
  · exact lines_not_posted _ e (List.mem_reverse.mp he)
  · rw [List.mem_singleton.mp he]
    rfl

theorem stopping_replied (response : HttpRequestCompletion) :
    stopping isCentral (repliedEvents response) =
      decide (response.status = 401 ∧ isCentral = false) := by
  rw [repliedEvents, ← List.map_reverse, stopping_append, stopping_lines]
  simp [stopping]

/-- The startup's fetch brings an application: its acknowledgement is posted. -/
theorem logged_startup {b b' : Bot} {body : Json} {new : List Event} (quiet : Quiet new)
    (hlog : b'.log = .posted .startup body :: (new ++ b.log)) :
    Logged isCentral b b' (some .startup) := by
  apply logged_of_append (.posted .startup body :: new) hlog
  · rw [List.filterMap_cons,
      List.filterMap_eq_nil_iff.mpr fun e he => (quiet_not_posted quiet e he).2]
    rfl
  · change stopping isCentral new = false
    exact stopping_quiet quiet

/-- A reply that does not refuse the token posts nothing. -/
theorem logged_replied (b : Bot) (n : Nat) {response : HttpRequestCompletion}
    (valid : ¬(response.status = 401 ∧ isCentral = false)) :
    Logged isCentral b ((b.taken n).replied response) none := by
  apply logged_of_append _ (replied_log b n response)
  · exact List.filterMap_eq_nil_iff.mpr (replied_not_posted response)
  · rw [stopping_replied, decide_eq_false valid]
    rfl

/-- A reply that refuses the token asks for the shutdown and posts its acknowledgement. -/
theorem logged_refused (b : Bot) (n : Nat) {response : HttpRequestCompletion}
    (invalid : response.status = 401 ∧ isCentral = false) :
    Logged isCentral b (((b.taken n).replied response).posted .shutdown
      (.shutdown exitInvalidApiToken)) (some .shutdown) := by
  apply logged_of_append (.posted .shutdown _ :: repliedEvents response)
  · exact congrArg (List.cons _) (replied_log b n response)
  · rw [List.filterMap_cons, List.filterMap_eq_nil_iff.mpr (replied_not_posted response)]
    rfl
  · change stopping isCentral (repliedEvents response) = true
    rw [stopping_replied, decide_eq_true invalid]

theorem logged_step {b b' : Bot} {l : Label} (hs : Stepped P isCentral b l b') :
    Logged isCentral b b' (acknowledgementOf P isCentral b l) := by
  cases hs with
  | ready first => exact logged_of_append [] rfl rfl rfl
  | readyAgain again => exact logged_of_append [] rfl rfl rfl
  | @settled n r response now storage acknowledge new hn hr payload quiet =>
    have hnone : acknowledgementOf P isCentral b (.completed n response now storage) = none := by
      rcases hr with rfl | rfl | ⟨rfl, hfailed⟩ <;> simp [acknowledgementOf, *]
    rw [hnone]
    apply logged_of_append
    · rfl
    · exact List.filterMap_eq_nil_iff.mpr fun e he => (quiet_not_posted quiet e he).2
    · exact stopping_quiet quiet
  | @fetched n response now storage acknowledge new hn filled payload quiet =>
    have hsome : acknowledgementOf P isCentral b (.completed n response now storage) =
        some .startup := by
      simp [acknowledgementOf, hn, filled]
    rw [hsome]
    exact logged_startup quiet rfl
  | @replied n isStartup response now storage _ hn valid tail delivers =>
    have hnone : acknowledgementOf P isCentral b (.completed n response now storage) = none := by
      simp only [acknowledgementOf, hn, if_neg valid]
    obtain ⟨lines, hlog⟩ := tail.log
    rw [hnone]
    exact (logged_replied b n valid).lines hlog
  | @refused n isStartup response now storage _ hn invalid tail delivers =>
    have hsome : acknowledgementOf P isCentral b (.completed n response now storage) =
        some .shutdown := by
      simp only [acknowledgementOf, hn, if_pos invalid]
    obtain ⟨lines, hlog⟩ := tail.log
    rw [hsome]
    exact (logged_refused b n invalid).lines hlog
  | @raised n signal response now storage hn =>
    have hnone : acknowledgementOf P isCentral b (.completed n response now storage) = none := by
      simp [acknowledgementOf, hn]
    rw [hnone]
    exact logged_of_append _ (List.append_assoc [Event.raised signal] [.logged _] b.log).symm rfl rfl
  | @resumed call result now storage w _ hstep tail messages =>
    obtain ⟨lines, hlog⟩ := tail.log
    exact logged_of_append _ hlog (List.filterMap_eq_nil_iff.mpr (lines_not_posted lines))
      (stopping_lines lines)
  | created hstep => exact logged_of_append [] rfl rfl rfl
  | reportAnswered hstep => exact logged_of_append [] rfl rfl rfl
  | @dropped handle deleted =>
    have hnone : acknowledgementOf P isCentral b (.tick handle) = none := by
      simp [acknowledgementOf, deleted]
    rw [hnone]
    exact logged_of_append [] rfl rfl rfl
  | @acknowledged handle due live =>
    have hsome : acknowledgementOf P isCentral b (.tick handle) = some .plain := by
      simp [acknowledgementOf, due, live]
    rw [hsome]
    exact logged_of_append _ (List.singleton_append ..).symm rfl rfl
  | @refetched handle due live =>
    have hnone : acknowledgementOf P isCentral b (.tick handle) = none := by
      simp [acknowledgementOf, due]
    rw [hnone]
    exact logged_of_append [] rfl rfl rfl
  | @timedOut handle due live =>
    have hnone : acknowledgementOf P isCentral b (.tick handle) = none := by
      simp [acknowledgementOf, due]
    rw [hnone]
    exact logged_of_append _ (List.singleton_append ..).symm rfl rfl
  | @signalled signal =>
    exact logged_of_append [.posted .shutdown _, .logged _, .signalled signal] rfl rfl rfl

/-! ### Which runs keep the order -/

/-- A step that posts nothing once the shutdown has been asked for. In other words: from
then on there is no further signal, no further reply that refuses the token in tenant
mode, no completion of the startup's fetch that brings an application, and no tick of
an acknowledge timer that was not stopped. -/
def Disciplined (P : Platform) (isCentral : Bool) (b : Bot) (l : Label) : Prop :=
  stopping isCentral b.log = true → acknowledgementOf P isCentral b l = none

instance (b : Bot) (l : Label) : Decidable (Disciplined P isCentral b l) :=
  inferInstanceAs (Decidable (_ → _))

/-- The shutdown has been asked for exactly if its acknowledgement has been posted. -/
def StopPosted (isCentral : Bool) (b : Bot) : Prop :=
  stopping isCentral b.log = true ↔ Kind.shutdown ∈ posts b.log

theorem stopPosted_step {b b' : Bot} {l : Label} (h : StopPosted isCentral b)
    (hs : Stepped P isCentral b l b') : StopPosted isCentral b' := by
  obtain ⟨hposts, hstopping⟩ := logged_step hs
  have before : stopping isCentral b.log = true ↔ Kind.shutdown ∈ posts b.log := h
  rw [StopPosted, hstopping, hposts, List.mem_append, before]
  cases acknowledgementOf P isCentral b l with
  | none => simp
  | some kind => simp [eq_comm]

theorem mem_posts {kind : Kind} {log : List Event} (h : kind ∈ posts log) :
    ∃ body, .posted kind body ∈ log := by
  obtain ⟨e, he, hkind⟩ := List.mem_filterMap.mp (List.mem_reverse.mp h)
  cases e with
  | posted k body =>
    cases hkind
    exact ⟨body, he⟩
  | _ => cases hkind

/-- The startup acknowledgement is posted when at most shutdown ones have been. -/
theorem startup_first {b : Bot} {l : Label} (h : Sound b)
    (hl : acknowledgementOf P isCentral b l = some .startup) :
    ∀ kind ∈ posts b.log, kind = .shutdown := by
  intro kind hkind
  obtain ⟨body, hmem⟩ := mem_posts hkind
  refine h.early (.inr ?_) kind body hmem
  cases l with
  | completed n response now storage =>
    rw [acknowledgementOf] at hl
    split at hl
    · rename_i hn
      obtain ⟨k, hk⟩ := h.request
      exact (hk n _ _ hn rfl).2
    · split at hl <;> cases hl
    · cases hl
  | tick handle =>
    rw [acknowledgementOf] at hl
    split at hl <;> cases hl
  | _ => cases hl

/-- **The step lemma.** The order is kept by exactly the disciplined steps. -/
theorem ordered_step {b b' : Bot} {l : Label} (h : Sound b) (hstop : StopPosted isCentral b)
    (hs : Stepped P isCentral b l b') :
    Ordered (posts b'.log) ↔ Ordered (posts b.log) ∧ Disciplined P isCentral b l := by
  have before : stopping isCentral b.log = true ↔ Kind.shutdown ∈ posts b.log := hstop
  rw [(logged_step hs).posts, Disciplined, before]
  cases hl : acknowledgementOf P isCentral b l with
  | none => simp
  | some kind =>
    change Ordered (posts b.log ++ [kind]) ↔ _
    rw [ordered_concat]
    refine and_congr_right fun _ => ?_
    constructor
    · intro hbefore hmem
      exact absurd rfl (hbefore .shutdown hmem).1
    · intro hclean first hfirst
      have hne : first ≠ .shutdown := by
        rintro rfl
        cases hclean hfirst
      refine ⟨hne, ?_⟩
      rintro rfl
      exact hne (startup_first h hl first hfirst)

/-- **The order of the acknowledgements.** At the end of a run the acknowledgements
posted have been at most one for the startup, then plain ones, then at most one for
the shutdown, exactly if every step of the run was disciplined. -/
theorem ordered_iff (P : Platform) (isCentral : Bool) {labels : List Label} {b : Bot}
    (hrun : (system P isCentral).run (system P isCentral).start labels = some b) :
    Ordered (posts b.log) ↔
      (system P isCentral).Along (fun b l _ => Disciplined P isCentral b l)
        (system P isCentral).start labels := by
  have run_lemma : ∀ (labels : List Label) (s : Bot), Sound s → StopPosted isCentral s →
      (system P isCentral).run s labels = some b →
      (Ordered (posts b.log) ↔ Ordered (posts s.log) ∧
        (system P isCentral).Along (fun b l _ => Disciplined P isCentral b l) s labels) := by
    intro labels
    induction labels with
    | nil =>
      intro s _ _ hrun
      rw [Transition.System.run_nil, Option.some.injEq] at hrun
      subst hrun
      simp [Transition.System.Along]
    | cons l rest ih =>
      intro s h hstop hrun
      obtain ⟨t, hstep, hrest⟩ := ((system P isCentral).run_cons).mp hrun
      have hs := step_cases h.payload hstep
      rw [ih t (sound_step h hs) (stopPosted_step hstop hs) hrest, ordered_step h hstop hs, and_assoc]
      refine and_congr_right fun _ => ?_
      constructor
      · rintro ⟨hl, along⟩ u hu
        obtain rfl := Option.some.inj (hstep.symm.trans hu)
        exact ⟨hl, along⟩
      · intro along
        exact along t hstep
  have start : Ordered (posts (system P isCentral).start.log) :=
    ⟨[], [], [], rfl, .inl rfl, by simp, .inl rfl⟩
  have unposted : StopPosted isCentral (system P isCentral).start := by
    simp [StopPosted, system, stopping, posts]
  rw [run_lemma labels _ sound_start unposted hrun]
  exact and_iff_right start

/-- Request `n` is answered with `status` and an empty object. -/
def answeredWith (n : Nat) (status : UInt16) : Label :=
  .completed n { status, body := "\x7b\x7d" } 1 fun _ => 0

/-- The bot starts, acknowledges once more and is stopped by a signal. -/
def stoppedOnce : List Label :=
  [.ready, answeredWith 0 200, answeredWith 1 200, .tick 1, .signal sigterm, .tick 1]

theorem ordered_iff_stoppedOnce :
    ∃ b, (system Messages.samplePlatform true).run {} stoppedOnce = some b ∧
      posts b.log = [.startup, .plain, .shutdown] ∧ Ordered (posts b.log) := by
  let b := ((system Messages.samplePlatform true).run {} stoppedOnce).get (by decide +kernel)
  have hrun : (system Messages.samplePlatform true).run {} stoppedOnce = some b :=
    (Option.some_get _).symm
  refine ⟨b, hrun, by decide +kernel, ?_⟩
  exact (@ordered_iff Messages.samplePlatform true stoppedOnce b hrun).mpr (by decide +kernel)

/-- Every run keeps the order. -/
def AlwaysOrdered : Prop :=
  ∀ P isCentral labels b, (system P isCentral).run (system P isCentral).start labels = some b →
    Ordered (posts b.log)

/-- A signal is delivered while the application is fetched. -/
def signalledEarly : List Label :=
  [.ready, .signal sigint, answeredWith 0 200]

/-- **A signal before the startup has finished does not stop it**: the startup
acknowledgement follows the one of the shutdown. -/
theorem signal_before_startup : ¬ AlwaysOrdered := by
  intro h
  let b := ((system Messages.samplePlatform true).run {} signalledEarly).get (by decide +kernel)
  have kept := h Messages.samplePlatform true signalledEarly b (Option.some_get _).symm
  have hposts : posts b.log = [.shutdown, .startup] := by decide +kernel
  rw [ordered_iff_pairwise, hposts] at kept
  exact absurd kept (by decide)

end Lifecycle
