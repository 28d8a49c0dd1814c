import CordactylBot.Dpp.Timers.Queue

/-!
How often the timers of a cluster tick.

* `scheduled` — in every reachable state, the next tick of a timer is as many periods behind
  its start as it has ticked, and one.
* `ticks_eq` — after a pass, each timer has ticked once for every period since its start.
* `stopped_for_good` — a timer that was stopped does not tick again, and ends once.
-/

open Transition

namespace TimerQueue

variable {τ : Type}

def isTick (handle : Nat) : TimerEvent → Bool
  | .ticked h _ => h = handle
  | _ => false

/-- How often a timer has ticked. -/
def ticks (handle : Nat) (log : List TimerEvent) : Nat :=
  log.countP (isTick handle)

def isStop (handle : Nat) : TimerEvent → Bool
  | .stopped h => h = handle
  | _ => false

/-- How often a timer was told that it has been stopped. -/
def stops (handle : Nat) (log : List TimerEvent) : Nat :=
  log.countP (isStop handle)

/-- The timers there are. -/
def all (q : TimerQueue τ) : List (ClusterTimer τ) :=
  q.current.toList ++ q.nextTimer

/-- The time of the pass under way, or else of the last one. -/
def base (q : TimerQueue τ) : Nat :=
  q.ticking.getD q.passed

/-- The next tick of a timer is `ahead` periods behind its last one, which was not too early. -/
def OnTime (log : List TimerEvent) (base ahead : Nat) (t : ClusterTimer τ) : Prop :=
  ∃ s, .started t.handle t.frequency s ∈ log ∧
    t.nextTick = s + (ticks t.handle log + ahead) * t.frequency ∧
    (0 < ticks t.handle log → s + ticks t.handle log * t.frequency ≤ base)

structure Scheduled (q : TimerQueue τ) : Prop where
  nodup : (q.all.map ClusterTimer.handle).Nodup
  known : ∀ t ∈ q.all, t.handle < q.nextHandle
  logged : ∀ e ∈ q.log, e.handle < q.nextHandle
  unstopped : ∀ t ∈ q.all, stops t.handle q.log = 0
  starts : ∀ h f s f' s', .started h f s ∈ q.log → .started h f' s' ∈ q.log → f = f' ∧ s = s'
  busy : q.current ≠ none → q.ticking ≠ none
  base_le : q.base ≤ q.clock
  passed_le : q.passed ≤ q.clock
  queued : ∀ t ∈ q.nextTimer, OnTime q.log q.base 1 t
  running : ∀ t ∈ q.current, OnTime q.log q.base 0 t
  late : q.ticking = none → ∀ t ∈ q.nextTimer, 0 < t.frequency → q.passed < t.nextTick

theorem ticks_cons_of_not {handle : Nat} {e : TimerEvent} (h : isTick handle e = false)
    (log : List TimerEvent) : ticks handle (e :: log) = ticks handle log :=
  List.countP_cons_of_neg (by simp [h])

theorem stops_cons_of_not {handle : Nat} {e : TimerEvent} (h : isStop handle e = false)
    (log : List TimerEvent) : stops handle (e :: log) = stops handle log :=
  List.countP_cons_of_neg (by simp [h])

/-- Events that are no ticks of a timer leave it on time, and so does a later pass. -/
theorem OnTime.mono {log : List TimerEvent} {base base' ahead : Nat} {t : ClusterTimer τ}
    (h : OnTime log base ahead t) (hbase : base ≤ base') {e : TimerEvent}
    (he : isTick t.handle e = false) : OnTime (e :: log) base' ahead t := by
  obtain ⟨s, hs, hnext, hlast⟩ := h
  refine ⟨s, List.mem_cons_of_mem _ hs, ?_, ?_⟩
  · rw [ticks_cons_of_not he]
    exact hnext
  · rw [ticks_cons_of_not he]
    exact fun hpos => Nat.le_trans (hlast hpos) hbase

theorem OnTime.base_mono {log : List TimerEvent} {base base' ahead : Nat} {t : ClusterTimer τ}
    (h : OnTime log base ahead t) (hbase : base ≤ base') : OnTime log base' ahead t := by
  obtain ⟨s, hs, hnext, hlast⟩ := h
  exact ⟨s, hs, hnext, fun hpos => Nat.le_trans (hlast hpos) hbase⟩

theorem ticks_eq_zero {handle : Nat} {log : List TimerEvent} (h : ∀ e ∈ log, e.handle < handle) :
    ticks handle log = 0 := by
  refine List.countP_eq_zero.mpr fun e he => ?_
  have := h e he
  cases e with
  | ticked h now =>
    have hlt : h < handle := this
    simp [isTick, Nat.ne_of_lt hlt]
  | started | stopped => simp [isTick]

theorem stops_eq_zero {handle : Nat} {log : List TimerEvent} (h : ∀ e ∈ log, e.handle < handle) :
    stops handle log = 0 := by
  refine List.countP_eq_zero.mpr fun e he => ?_
  have := h e he
  cases e with
  | stopped h =>
    have hlt : h < handle := this
    simp [isStop, Nat.ne_of_lt hlt]
  | started | ticked => simp [isStop]

/-- Popping one timer leaves the others, each with another handle. -/
theorem all_of_idle {q : TimerQueue τ} (h : q.current = none) : q.all = q.nextTimer := by
  simp [all, h]

theorem upcoming_of_idle {q : TimerQueue τ} (h : q.current = none) : q.upcoming = q.nextTimer := by
  simp [upcoming, h]

theorem all_drop {q : TimerQueue τ} (h : q.current = none) (timer : ClusterTimer τ) :
    (q.drop timer).all = q.popped timer.handle := by
  simp [all, drop, h]

theorem mem_popped {q : TimerQueue τ} {handle : Nat} {t : ClusterTimer τ} :
    t ∈ q.popped handle ↔ t ∈ q.nextTimer ∧ t.handle ≠ handle := by
  simp [popped]

theorem nodup_popped {q : TimerQueue τ} {timer : ClusterTimer τ}
    (h : (q.nextTimer.map ClusterTimer.handle).Nodup) :
    ((timer :: q.popped timer.handle).map ClusterTimer.handle).Nodup := by
  rw [List.map_cons, List.nodup_cons]
  refine ⟨fun hmem => ?_, h.sublist (List.filter_sublist.map _)⟩
  obtain ⟨t, ht, heq⟩ := List.mem_map.mp hmem
  exact (mem_popped.mp ht).2 heq

theorem scheduled_preserved : (system τ).Preserved Scheduled := by
  intro q l q' h hstep
  cases stepped hstep with
  | @start onTick frequency now hclock =>
    have fresh : ∀ t ∈ q.all, t.handle ≠ q.nextHandle := fun t ht => Nat.ne_of_lt (h.known t ht)
    have hzero : ticks q.nextHandle (.started q.nextHandle frequency now :: q.log) = 0 := by
      rw [ticks_cons_of_not rfl, ticks_eq_zero h.logged]
    refine ⟨?_, ?_, ?_, ?_, ?_, h.busy, Nat.le_trans h.base_le hclock,
      Nat.le_trans h.passed_le hclock, ?_, fun t ht => (h.running t ht).mono (Nat.le_refl _) rfl, ?_⟩
    · have hnodup := h.nodup
      simp only [all, startTimer, List.map_append, List.map_cons] at hnodup ⊢
      refine List.nodup_middle.mpr (List.nodup_cons.mpr ⟨fun hmem => ?_, hnodup⟩)
      rw [← List.map_append] at hmem
      obtain ⟨t, ht, heq⟩ := List.mem_map.mp hmem
      exact fresh t ht heq
    · intro t ht
      rcases List.mem_append.mp ht with ht | ht
      · exact Nat.lt_succ_of_lt (h.known t (List.mem_append_left _ ht))
      · rcases List.mem_cons.mp ht with rfl | ht
        · exact Nat.lt_succ_self _
        · exact Nat.lt_succ_of_lt (h.known t (List.mem_append_right _ ht))
    · intro e he
      rcases List.mem_cons.mp he with rfl | he
      · exact Nat.lt_succ_self _
      · exact Nat.lt_succ_of_lt (h.logged e he)
    · intro t ht
      refine (stops_cons_of_not rfl q.log).trans ?_
      rcases List.mem_append.mp ht with ht | ht
      · exact h.unstopped t (List.mem_append_left _ ht)
      · rcases List.mem_cons.mp ht with rfl | ht
        · exact stops_eq_zero h.logged
        · exact h.unstopped t (List.mem_append_right _ ht)
    · intro handle f s f' s' hs hs'
      have old : ∀ {f s : Nat}, .started q.nextHandle f s ∉ q.log := fun hmem =>
        Nat.lt_irrefl _ (h.logged _ hmem)
      rcases List.mem_cons.mp hs with heq | hs <;> rcases List.mem_cons.mp hs' with heq' | hs'
      · cases heq
        cases heq'
        exact ⟨rfl, rfl⟩
      · cases heq
        exact absurd hs' old
      · cases heq'
        exact absurd hs old
      · exact h.starts handle f s f' s' hs hs'
    · intro t ht
      rcases List.mem_cons.mp ht with rfl | ht
      · refine ⟨now, List.mem_cons_self, ?_, fun hpos => ?_⟩
        · simp [startTimer, hzero]
        · exact absurd hzero (Nat.ne_of_gt hpos)
      · exact (h.queued t ht).mono (Nat.le_refl _) rfl
    · intro hidle t ht hpos
      rcases List.mem_cons.mp ht with rfl | ht
      · have := h.passed_le
        simp only [startTimer] at hpos ⊢
        omega
      · exact h.late hidle t ht hpos
  | stop =>
    exact ⟨h.nodup, h.known, h.logged, h.unstopped, h.starts, h.busy, h.base_le, h.passed_le,
      h.queued, h.running, h.late⟩
  | @tickTimers now hticking hclock =>
    have hcurrent : q.current = none := by
      by_contra hne
      exact h.busy hne hticking
    have hbase : q.base ≤ (q.tickTimers now).base := by
      have hpassed : q.base = q.passed := by simp [base, hticking]
      rw [hpassed, base, tickTimers]
      split
      · exact Nat.le_refl _
      · exact Nat.le_trans h.passed_le hclock
    refine ⟨h.nodup, h.known, h.logged, h.unstopped, h.starts, fun hne => absurd hcurrent hne, ?_,
      Nat.le_trans h.passed_le hclock, fun t ht => (h.queued t ht).base_mono hbase,
      fun t ht => (h.running t ht).base_mono hbase, fun hidle t ht => ?_⟩
    · rw [base, tickTimers]
      split
      · exact Nat.le_trans h.passed_le hclock
      · exact Nat.le_refl _
    · have hne : q.nextTimer.isEmpty = false := by
        cases hq : q.nextTimer with
        | nil => simp [tickTimers, hq] at ht
        | cons => rfl
      simp [tickTimers, hne] at hidle
  | @ticked timer now hticking hcurrent hmem hdue _ _ =>
    have hall := all_of_idle hcurrent
    have hnodup := h.nodup
    have hbase : (q.tick timer now).base = q.base := rfl
    rw [hall] at hnodup
    obtain ⟨s, hs, hnext, hlast⟩ := h.queued timer hmem
    have hticks : ticks timer.handle (.ticked timer.handle now :: q.log) =
        ticks timer.handle q.log + 1 := List.countP_cons_of_pos (by simp [isTick])
    refine ⟨nodup_popped hnodup, ?_, ?_, ?_, ?_, fun _ => by simp [tick, hticking], h.base_le,
      h.passed_le, ?_, ?_, fun hidle => ?_⟩
    · intro t ht
      rcases List.mem_cons.mp ht with rfl | ht
      · exact h.known t (hall ▸ hmem)
      · exact h.known t (hall ▸ (mem_popped.mp ht).1)
    · intro e he
      rcases List.mem_cons.mp he with rfl | he
      · exact h.known timer (hall ▸ hmem)
      · exact h.logged e he
    · intro t ht
      refine (stops_cons_of_not rfl q.log).trans ?_
      rcases List.mem_cons.mp ht with rfl | ht
      · exact h.unstopped t (hall ▸ hmem)
      · exact h.unstopped t (hall ▸ (mem_popped.mp ht).1)
    · intro handle f s f' s' hs hs'
      exact h.starts handle f s f' s' (by simpa [tick] using hs) (by simpa [tick] using hs')
    · intro t ht
      obtain ⟨ht, hne⟩ := mem_popped.mp ht
      exact (h.queued t ht).mono (Nat.le_refl _) (by simpa [isTick] using Ne.symm hne)
    · intro t ht
      cases ht
      refine ⟨s, List.mem_cons_of_mem _ hs, ?_, fun _ => ?_⟩
      · rw [show (q.tick timer now).log = .ticked timer.handle now :: q.log from rfl, hticks]
        exact hnext
      · rw [show (q.tick timer now).log = .ticked timer.handle now :: q.log from rfl, hticks,
          ← hnext, hbase, base, hticking]
        exact hdue
    · have hidle' : q.ticking = none := hidle
      rw [hticking] at hidle'
      cases hidle'
  | @dropped timer now hticking hcurrent hmem hdue _ _ =>
    have hall := all_of_idle hcurrent
    have hnodup := h.nodup
    rw [hall] at hnodup
    have hall' := all_drop hcurrent timer
    refine ⟨?_, ?_, ?_, ?_, ?_, h.busy, h.base_le, h.passed_le, ?_, ?_, fun hidle => ?_⟩
    · rw [hall']
      exact (List.nodup_cons.mp (nodup_popped hnodup)).2
    · intro t ht
      rw [hall'] at ht
      exact h.known t (hall ▸ (mem_popped.mp ht).1)
    · intro e he
      rcases List.mem_cons.mp he with rfl | he
      · exact h.known timer (hall ▸ hmem)
      · exact h.logged e he
    · intro t ht
      rw [hall'] at ht
      obtain ⟨ht, hne⟩ := mem_popped.mp ht
      exact (stops_cons_of_not (by simpa [isStop] using hne.symm) q.log).trans
        (h.unstopped t (hall ▸ ht))
    · intro handle f s f' s' hs hs'
      exact h.starts handle f s f' s' (by simpa [drop] using hs) (by simpa [drop] using hs')
    · intro t ht
      exact (h.queued t (mem_popped.mp ht).1).mono (Nat.le_refl _) rfl
    · intro t ht
      have ht' : q.current = some t := ht
      rw [hcurrent] at ht'
      cases ht'
    · have hidle' : q.ticking = none := hidle
      rw [hticking] at hidle'
      cases hidle'
  | @reinserted timer hcurrent =>
    have hmem : timer ∈ q.current := hcurrent
    obtain ⟨s, hs, hnext, hlast⟩ := h.running timer hmem
    have hticking := h.busy (by simp [hcurrent])
    have hnodup := h.nodup
    have hknown := h.known
    have hunstopped := h.unstopped
    simp only [all, hcurrent, Option.toList_some, List.singleton_append] at hnodup hknown hunstopped
    refine ⟨by simpa [all, reinsert] using hnodup, ?_, h.logged, ?_, h.starts,
      fun hne => absurd rfl hne, h.base_le, h.passed_le, ?_, nofun, fun hidle => ?_⟩
    · intro t ht
      rcases List.mem_cons.mp ht with rfl | ht
      · exact hknown timer List.mem_cons_self
      · exact hknown t (List.mem_cons_of_mem _ ht)
    · intro t ht
      rcases List.mem_cons.mp ht with rfl | ht
      · exact hunstopped timer List.mem_cons_self
      · exact hunstopped t (List.mem_cons_of_mem _ ht)
    · intro t ht
      rcases List.mem_cons.mp ht with rfl | ht
      · refine ⟨s, hs, ?_, hlast⟩
        show timer.nextTick + timer.frequency = _
        rw [hnext, Nat.add_zero, Nat.add_assoc, ← Nat.add_one_mul]
        rfl
      · exact h.queued t ht
    · exact absurd hidle hticking
  | @left now hticking hcurrent hnone =>
    have hbase : q.base = now := by simp [base, hticking]
    exact ⟨h.nodup, h.known, h.logged, h.unstopped, h.starts, fun hne => absurd hcurrent hne,
      hbase ▸ h.base_le, hbase ▸ h.base_le, fun t ht => (h.queued t ht).base_mono (Nat.le_of_eq hbase),
      fun t ht => (h.running t ht).base_mono (Nat.le_of_eq hbase), fun _ t ht _ => hnone t ht⟩

theorem scheduled {q : TimerQueue τ} (h : (system τ).Reachable q) : Scheduled q :=
  h.invariant ⟨List.nodup_nil, by simp [system, all], by simp [system], by simp [system, all],
    by simp [system], fun hne => absurd rfl hne, Nat.le_refl _, Nat.le_refl _, by simp [system],
    by simp [system], by simp [system]⟩ scheduled_preserved

/-- When no pass is under way, a timer has ticked once for every period since its start. -/
theorem Scheduled.ticks_queued {q : TimerQueue τ} (h : Scheduled q) (idle : q.ticking = none)
    {t : ClusterTimer τ} (ht : t ∈ q.nextTimer) (hpos : 0 < t.frequency) :
    ∃ s, .started t.handle t.frequency s ∈ q.log ∧
      ticks t.handle q.log = (q.passed - s) / t.frequency := by
  obtain ⟨s, hs, hnext, hlast⟩ := h.queued t ht
  have hlate := h.late idle t ht hpos
  have hbase : q.base = q.passed := by simp [base, idle]
  rw [hnext] at hlate
  rw [hbase] at hlast
  refine ⟨s, hs, ?_⟩
  set k := ticks t.handle q.log
  refine (Nat.div_eq_of_lt_le ?_ ?_).symm
  · rcases Nat.eq_zero_or_pos k with hk | hk
    · simp [hk]
    · have := hlast hk
      omega
  · have : 0 < (k + 1) * t.frequency := Nat.mul_pos (Nat.succ_pos k) hpos
    omega

/-- **On time**: when no pass is under way, a timer has ticked once for every period between its
start and the last pass. None is lost when the passes are late, and none comes early. -/
theorem ticks_eq {q : TimerQueue τ} (h : (system τ).Reachable q) (idle : q.ticking = none) :
    ∀ t ∈ q.nextTimer, ∀ s, .started t.handle t.frequency s ∈ q.log → 0 < t.frequency →
      ticks t.handle q.log = (q.passed - s) / t.frequency := by
  intro t ht s hs hpos
  have hscheduled := scheduled h
  obtain ⟨s', hs', hticks⟩ := hscheduled.ticks_queued idle ht hpos
  obtain ⟨-, rfl⟩ := hscheduled.starts t.handle t.frequency s t.frequency s' hs hs'
  exact hticks

/-- One timer of a period of thirty, and a pass that comes late. -/
def lateRun : List (TimerLabel Unit) :=
  [.start () 30 100, .start () 720 100, .tickTimers 131, .pop 1, .reinsert, .leave,
    .tickTimers 195, .pop 1, .reinsert, .pop 1, .reinsert, .leave]

theorem ticks_eq_late : ∃ q, (system Unit).run (system Unit).start lateRun = some q ∧
    ∀ t ∈ q.nextTimer, ∀ s, .started t.handle t.frequency s ∈ q.log → 0 < t.frequency →
      ticks t.handle q.log = (q.passed - s) / t.frequency := by
  have hrun : ((system Unit).run (system Unit).start lateRun).map (·.ticking) = some none := by
    decide +kernel
  obtain ⟨q, hrun, idle⟩ := Option.map_eq_some_iff.mp hrun
  exact ⟨q, hrun, ticks_eq ⟨lateRun, hrun⟩ idle⟩

/-! ### Timers that are stopped -/

/-- A timer that is to be stopped: it is noted, or it is gone for good. -/
structure Stopping (handle ticked : Nat) (q : TimerQueue τ) : Prop where
  noted : handle ∈ q.deletedTimers ∨ handle < q.nextHandle ∧ ∀ t ∈ q.all, t.handle ≠ handle
  ticks : ticks handle q.log = ticked

theorem stopping_preserved (handle ticked : Nat) :
    (system τ).Preserved fun q => Scheduled q ∧ Stopping handle ticked q := by
  rintro q l q' ⟨hs, h⟩ hstep
  refine ⟨scheduled_preserved q l q' hs hstep, ?_⟩
  cases stepped hstep with
  | @start onTick frequency now hclock =>
    refine ⟨?_, (ticks_cons_of_not rfl q.log).trans h.ticks⟩
    rcases h.noted with hnoted | ⟨hlt, hgone⟩
    · exact .inl hnoted
    · refine .inr ⟨Nat.lt_succ_of_lt hlt, fun t ht => ?_⟩
      rcases List.mem_append.mp ht with ht | ht
      · exact hgone t (List.mem_append_left _ ht)
      · rcases List.mem_cons.mp ht with rfl | ht
        · exact Nat.ne_of_gt hlt
        · exact hgone t (List.mem_append_right _ ht)
  | @stop other =>
    exact ⟨h.noted.imp_left fun hmem => List.mem_insert_of_mem hmem, h.ticks⟩
  | tickTimers => exact ⟨h.noted, h.ticks⟩
  | @ticked timer now hticking hcurrent hmem hdue _ hlive =>
    have hall := all_of_idle hcurrent
    have hne : timer.handle ≠ handle := by
      rcases h.noted with hdeleted | ⟨-, hgone⟩
      · exact fun heq => hlive (heq ▸ hdeleted)
      · exact hgone timer (hall ▸ hmem)
    refine ⟨?_, (ticks_cons_of_not (by simpa [isTick] using hne) q.log).trans h.ticks⟩
    rcases h.noted with hnoted | ⟨hlt, hgone⟩
    · exact .inl hnoted
    · refine .inr ⟨hlt, fun t ht => ?_⟩
      rcases List.mem_cons.mp ht with rfl | ht
      · exact hne
      · exact hgone t (hall ▸ (mem_popped.mp ht).1)
  | @dropped timer now hticking hcurrent hmem hdue _ hdeleted =>
    have hall := all_of_idle hcurrent
    have hall' := all_drop hcurrent timer
    refine ⟨?_, (ticks_cons_of_not rfl q.log).trans h.ticks⟩
    by_cases heq : timer.handle = handle
    · subst heq
      refine .inr ⟨hs.known timer (hall ▸ hmem), fun t ht => ?_⟩
      rw [hall'] at ht
      exact (mem_popped.mp ht).2
    · rcases h.noted with hnoted | ⟨hlt, hgone⟩
      · exact .inl (List.mem_filter.mpr ⟨hnoted, by simpa using Ne.symm heq⟩)
      · refine .inr ⟨hlt, fun t ht => ?_⟩
        rw [hall'] at ht
        exact hgone t (hall ▸ (mem_popped.mp ht).1)
  | @reinserted timer hcurrent =>
    refine ⟨?_, h.ticks⟩
    rcases h.noted with hnoted | ⟨hlt, hgone⟩
    · exact .inl hnoted
    refine .inr ⟨hlt, fun t ht => ?_⟩
    have hall : ∀ t ∈ timer :: q.nextTimer, t.handle ≠ handle := by
      simpa [all, hcurrent] using hgone
    rcases List.mem_cons.mp ht with rfl | ht
    · exact hall timer List.mem_cons_self
    · exact hall t (List.mem_cons_of_mem _ ht)
  | left => exact ⟨h.noted, h.ticks⟩

/-- A timer has one handle, whether it ticks or waits. -/
theorem Scheduled.upcoming {q : TimerQueue τ} (h : Scheduled q) {t : ClusterTimer τ}
    (ht : t ∈ q.upcoming) : t.handle < q.nextHandle ∧ stops t.handle q.log = 0 := by
  rcases List.mem_append.mp ht with ht | ht
  · obtain ⟨timer, hcurrent, rfl⟩ := Option.map_eq_some_iff.mp (Option.mem_toList.mp ht)
    have hall : timer ∈ q.all := List.mem_append_left _ (Option.mem_toList.mpr hcurrent)
    exact ⟨h.known timer hall, h.unstopped timer hall⟩
  · have hall : t ∈ q.all := List.mem_append_right _ ht
    exact ⟨h.known t hall, h.unstopped t hall⟩

/-- What happens to a timer that is to be stopped: it stays as it is, or will be once it has
ticked, until it is dropped, and is told so. -/
inductive Ending (t : ClusterTimer τ) (q : TimerQueue τ) : Prop where
  | noted : t ∈ q.upcoming → t.handle ∈ q.deletedTimers → stops t.handle q.log = 0 → Ending t q
  | gone : t.handle < q.nextHandle → (∀ t' ∈ q.all, t'.handle ≠ t.handle) →
      stops t.handle q.log = 1 → Ending t q

/-- A timer that is gone does not come back. -/
theorem Stepped.gone {q q' : TimerQueue τ} {l : TimerLabel τ} {handle : Nat}
    (hstep : Stepped q l q') (hlt : handle < q.nextHandle)
    (hgone : ∀ t ∈ q.all, t.handle ≠ handle) :
    handle < q'.nextHandle ∧ (∀ t ∈ q'.all, t.handle ≠ handle) ∧
      stops handle q'.log = stops handle q.log := by
  cases hstep with
  | start =>
    refine ⟨Nat.lt_succ_of_lt hlt, fun t ht => ?_, stops_cons_of_not rfl q.log⟩
    rcases List.mem_append.mp ht with ht | ht
    · exact hgone t (List.mem_append_left _ ht)
    · rcases List.mem_cons.mp ht with rfl | ht
      · exact Nat.ne_of_gt hlt
      · exact hgone t (List.mem_append_right _ ht)
  | stop | tickTimers | left => exact ⟨hlt, hgone, rfl⟩
  | @ticked timer now hticking hcurrent hmem =>
    have hall := all_of_idle hcurrent
    refine ⟨hlt, fun t ht => ?_, stops_cons_of_not rfl q.log⟩
    rcases List.mem_cons.mp ht with rfl | ht
    · exact hgone t (hall ▸ hmem)
    · exact hgone t (hall ▸ (mem_popped.mp ht).1)
  | @dropped timer now hticking hcurrent hmem =>
    have hall := all_of_idle hcurrent
    have hall' := all_drop hcurrent timer
    have hne := hgone timer (hall ▸ hmem)
    refine ⟨hlt, fun t ht => ?_, stops_cons_of_not (by simpa [isStop] using hne) q.log⟩
    rw [hall'] at ht
    exact hgone t (hall ▸ (mem_popped.mp ht).1)
  | @reinserted timer hcurrent =>
    have hall : ∀ t ∈ timer :: q.nextTimer, t.handle ≠ handle := by
      simpa [all, hcurrent] using hgone
    refine ⟨hlt, fun t ht => ?_, rfl⟩
    rcases List.mem_cons.mp ht with rfl | ht
    · exact hall timer List.mem_cons_self
    · exact hall t (List.mem_cons_of_mem _ ht)

theorem ending_preserved (t : ClusterTimer τ) :
    (system τ).Preserved fun q => Scheduled q ∧ Ending t q := by
  rintro q l q' ⟨hs, h⟩ hstep
  refine ⟨scheduled_preserved q l q' hs hstep, ?_⟩
  cases h with
  | gone hlt hgone hstops =>
    obtain ⟨hlt', hgone', hsame⟩ := (stepped hstep).gone hlt hgone
    exact .gone hlt' hgone' (hsame.trans hstops)
  | noted ht hdeleted hstops =>
    cases stepped hstep with
    | start =>
      refine .noted ?_ hdeleted ((stops_cons_of_not rfl q.log).trans hstops)
      exact (List.mem_append.mp ht).elim (List.mem_append_left _)
        fun ht => List.mem_append_right _ (List.mem_cons_of_mem _ ht)
    | stop => exact .noted ht (List.mem_insert_of_mem hdeleted) hstops
    | tickTimers | left => exact .noted ht hdeleted hstops
    | @ticked timer now hticking hcurrent hmem hdue _ hlive =>
      rw [upcoming_of_idle hcurrent] at ht
      have hne : t.handle ≠ timer.handle := fun heq => hlive (heq ▸ hdeleted)
      exact .noted (List.mem_append_right _ (mem_popped.mpr ⟨ht, hne⟩)) hdeleted
        ((stops_cons_of_not rfl q.log).trans hstops)
    | @dropped timer now hticking hcurrent hmem hdue _ hdeleted' =>
      have hall := all_of_idle hcurrent
      have hall' := all_drop hcurrent timer
      rw [upcoming_of_idle hcurrent] at ht
      by_cases heq : timer.handle = t.handle
      · refine .gone (hs.known t (hall ▸ ht)) (fun t' ht' => ?_) ?_
        · rw [hall', heq] at ht'
          exact (mem_popped.mp ht').2
        · exact (List.countP_cons_of_pos (by simp [isStop, heq])).trans (congrArg (· + 1) hstops)
      · exact .noted (List.mem_append_right _ (mem_popped.mpr ⟨ht, Ne.symm heq⟩))
          (List.mem_filter.mpr ⟨hdeleted, by simpa using Ne.symm heq⟩)
          ((stops_cons_of_not (by simpa [isStop] using heq) q.log).trans hstops)
    | @reinserted timer hcurrent =>
      -- the queue takes the timer at the time `upcoming` has announced
      have back : q.upcoming = (q.reinsert timer).upcoming := by simp [upcoming, reinsert, hcurrent]
      exact .noted (back ▸ ht) hdeleted hstops

/-- **Stopped for good**: after it was stopped, a timer does not tick, however late it is stopped,
and it is told so once, at the latest in the first pass at its next time or after it. That of
a timer that is stopped while it ticks is one period on. -/
theorem stopped_for_good {q q' : TimerQueue τ} (h : (system τ).Reachable q) (handle : Nat)
    {labels : List (TimerLabel τ)} (hrun : (system τ).run q (.stop handle :: labels) = some q') :
    ticks handle q'.log = ticks handle q.log ∧
      ∀ t ∈ q.upcoming, t.handle = handle → stops handle q'.log ≤ 1 ∧
        (q'.ticking = none → 0 < t.frequency → t.nextTick ≤ q'.passed →
          stops handle q'.log = 1 ∧ ∀ t' ∈ q'.all, t'.handle ≠ handle) := by
  have hs := scheduled h
  obtain ⟨q₁, hstep, hrest⟩ := System.run_cons _ |>.mp hrun
  have hstop : q₁ = q.stopTimer handle := (Option.some.inj hstep).symm
  have hs₁ := scheduled_preserved q _ q₁ hs hstep
  have hnoted : handle ∈ q₁.deletedTimers := hstop ▸ List.mem_insert_self
  constructor
  · have hstopping : Stopping handle (ticks handle q.log) q₁ := ⟨.inl hnoted, by rw [hstop]; rfl⟩
    exact ((stopping_preserved handle _).run ⟨hs₁, hstopping⟩ hrest).2.ticks
  · rintro t ht rfl
    have hending : Ending t q₁ := by
      refine .noted (by rw [hstop]; exact ht) hnoted ?_
      rw [hstop]
      exact (hs.upcoming ht).2
    obtain ⟨hs', hending'⟩ := (ending_preserved t).run ⟨hs₁, hending⟩ hrest
    cases hending' with
    | noted ht' hdeleted hstops =>
      refine ⟨by omega, fun idle hpos hpassed => ?_⟩
      have hcurrent : q'.current = none := by
        by_contra hne
        exact hs'.busy hne idle
      rw [upcoming_of_idle hcurrent] at ht'
      have := hs'.late idle t ht' hpos
      omega
    | gone _ hgone hstops => exact ⟨by omega, fun _ _ _ => ⟨hstops, hgone⟩⟩

/-- The timer of thirty is ticking. -/
def whileTicking : List (TimerLabel Unit) :=
  [.start () 30 100, .start () 720 100, .tickTimers 131, .pop 1]

/-- It is stopped by what it does, and the next pass comes late. -/
def stoppedTicking : List (TimerLabel Unit) :=
  [.stop 1, .reinsert, .leave, .tickTimers 260, .pop 1, .leave]

theorem stopped_for_good_ticking :
    ∃ q q', (system Unit).run (system Unit).start whileTicking = some q ∧
      (system Unit).run q stoppedTicking = some q' ∧ q.current.isSome ∧
      ticks 1 q'.log = ticks 1 q.log ∧
      ∀ t ∈ q.upcoming, t.handle = 1 → stops 1 q'.log ≤ 1 ∧
        (q'.ticking = none → 0 < t.frequency → t.nextTick ≤ q'.passed →
          stops 1 q'.log = 1 ∧ ∀ t' ∈ q'.all, t'.handle ≠ 1) := by
  let q := ((system Unit).run (system Unit).start whileTicking).get (by decide +kernel)
  have hrun : (system Unit).run (system Unit).start whileTicking = some q :=
    (Option.some_get _).symm
  have hsome : ((system Unit).run q stoppedTicking).isSome = true := by decide +kernel
  obtain ⟨q', hrun'⟩ := Option.isSome_iff_exists.mp hsome
  exact ⟨q, q', hrun, hrun', by decide +kernel, stopped_for_good ⟨whileTicking, hrun⟩ 1 hrun'⟩

end TimerQueue
