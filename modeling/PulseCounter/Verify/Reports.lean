import PulseCounter.Verify.System

/-!
# Reports

Two questions about the reports of a run. The duration a report is given is the true elapsed time as
long as that fits a 32-bit word (`reported_duration_iff`). And the figures of one report come from two
calls of `getResult`, with the polling thread at work between them: they are of one vector of counts,
and the final ones of the last vector, in every run in which the decoder counts no pulse while a report
is being made or the run is being ended (`reports_consistent`).
-/

namespace PulseCounter

/-- The rate of a summary, when the duration is not zero. -/
theorem DisplayData.statics_fs {p : Platform} {a : List UInt32} {duration : UInt32} {st : Statics}
    (h : statics p a duration = .ok st) (hduration : duration ≠ 0) :
    st.fs = some (st.max.toNat / (duration.toNat / 1000 : Rat)) := by
  unfold statics at h
  cases hm : findMinMax a with
  | error e =>
    rw [hm] at h
    cases h
  | ok m =>
    rw [hm] at h
    injection h with h
    subst h
    exact if_neg hduration

namespace PulseCounterMain

open DecodeGpioRegsAndAccumulate

variable {p : Platform} {rpi : RPiInterface} {config : PulseCounterConfiguration}
  {cc : ConfiguredChannels} {s₀ s t : System}

/-! ## The elapsed time -/

/-- **Reported elapsed time and rate.** At every report that is given a duration, the duration is the
true elapsed time, which is not zero, and the rate is the largest count divided by it, exactly when the
elapsed time is less than `2 ^ 32` milliseconds. -/
theorem reported_duration_iff (p : Platform) (rpi : RPiInterface)
    (config : PulseCounterConfiguration) (cc : ConfiguredChannels) (reading : UInt32)
    (hclock : rpi.millis = RPiInterfaceReal.millis reading) (s₀ s : System)
    (hstart : start rpi config cc = .ok (some s₀))
    (hreach : (machine p rpi config).Reachable s₀ s) (e : Emission) (he : e ∈ s.emitted)
    (duration : UInt32) (hduration : e.report.duration? = some duration) :
    (duration.toNat = e.elapsed ∧ duration ≠ 0 ∧
      ∃ st, DisplayData.statics p e.report.result duration = .ok st ∧
        st.fs = some (st.max.toNat / (e.elapsed / 1000 : Rat))) ↔ e.elapsed < 2 ^ 32 := by
  obtain ⟨-, hn, hrange⟩ := channels_of_start hstart
  obtain ⟨hinv, -⟩ := (inv_of_start p hstart).1.reachable hn hrange hreach
  have hfaithful := hinv.emitted e he
  constructor
  · rintro ⟨heq, -⟩
    rw [← heq]
    exact duration.toNat_lt
  · intro hlt
    have hword : duration = UInt32.ofNat e.elapsed := by
      rw [hfaithful.duration duration hduration, hclock, RPiInterfaceReal.millis_sub_millis]
    have heq : duration.toNat = e.elapsed := by
      rw [hword, UInt32.toNat_ofNat', Nat.mod_eq_of_lt hlt]
    have hne : duration ≠ 0 := by
      intro hzero
      have helapsed := hfaithful.elapsed
      rw [← heq, hzero] at helapsed
      exact absurd helapsed (by decide)
    obtain ⟨st, hst⟩ := DisplayData.statics_eq_ok p (hfaithful.result_ne_nil hn) duration
    refine ⟨heq, hne, st, hst, ?_⟩
    rw [DisplayData.statics_fs hst hne, heq]

/-- The status file of the first second. -/
theorem reported_duration_iff_second :
    ∃ s₀ s e, start (RPiInterfaceReal 7) { activePins := [11] } (.new (RPiInterfaceReal 7)) =
        .ok (some s₀) ∧
      (machine .saturating (RPiInterfaceReal 7) { activePins := [11] }).Reachable s₀ s ∧
      e ∈ s.emitted ∧ e.report.duration? = some 1000 ∧ (1000 : UInt32).toNat = e.elapsed := by
  obtain ⟨s₀, s, hstart, hreach, hobserved⟩ := reachable_of_schedule .saturating
    (RPiInterfaceReal 7) { activePins := [11] } (.new (RPiInterfaceReal 7))
    [.wake 1000, .channels, .dumpDataToFile true]
    (fun s => s.emitted.map fun e => (e.elapsed, e.report.duration?))
    [(1000, none), (1000, some 1000)] (by decide +kernel)
  have hmem : (1000, some 1000) ∈ s.emitted.map fun e => (e.elapsed, e.report.duration?) := by
    rw [hobserved]
    exact List.mem_cons_of_mem _ List.mem_cons_self
  obtain ⟨e, he, heq⟩ := List.mem_map.mp hmem
  injection heq with helapsed hduration
  refine ⟨s₀, s, e, hstart, hreach, he, hduration, ?_⟩
  exact ((reported_duration_iff _ _ _ _ 7 rfl s₀ s hstart hreach e he 1000 hduration).mpr
    (by rw [helapsed]; decide)).1

/-- Once the clock has gone round, the duration of a report is zero. -/
theorem reported_duration_wraps :
    ¬∀ (p : Platform) (config : PulseCounterConfiguration) (reading : UInt32) (s₀ s : System),
      start (RPiInterfaceReal reading) config (.new (RPiInterfaceReal reading)) = .ok (some s₀) →
      (machine p (RPiInterfaceReal reading) config).Reachable s₀ s → ∀ e ∈ s.emitted,
        ∀ duration, e.report.duration? = some duration → duration.toNat = e.elapsed := by
  intro h
  obtain ⟨s₀, s, hstart, hreach, hobserved⟩ := reachable_of_schedule .saturating
    (RPiInterfaceReal 7) { activePins := [11] } (.new (RPiInterfaceReal 7))
    [.wake (2 ^ 32 - 1000), .channels, .dumpDataToFile true,
      .wake (2 ^ 32), .channels, .dumpDataToFile true]
    (fun s => s.emitted.map fun e => (e.elapsed, e.report.duration?))
    [(2 ^ 32 - 1000, none), (2 ^ 32 - 1000, some (0 - 1000)), (2 ^ 32, none), (2 ^ 32, some 0)]
    (by decide +kernel)
  have hmem : (2 ^ 32, some 0) ∈ s.emitted.map fun e => (e.elapsed, e.report.duration?) := by
    rw [hobserved]
    decide
  obtain ⟨e, he, heq⟩ := List.mem_map.mp hmem
  injection heq with helapsed hduration
  have hzero := h _ _ 7 s₀ s hstart hreach e he 0 hduration
  rw [helapsed] at hzero
  exact absurd hzero (by decide)

/-! ## One report, one vector -/

/-- The decoder would count a pulse in the word: it is not skipped, and a pin whose level is remembered
as low is high in it. -/
def System.CountsPulse (s : System) (word : UInt32) : Prop :=
  s.poller ≠ .reading (s.masked word) ∧
    ∃ (i : Nat) (g : Int32),
      s.runner.m_decodeAndAccummulate.m_configured_channels.gpios[i]? = some g ∧
      s.runner.m_decodeAndAccummulate.m_lastGpioValue[i]? = some 0 ∧
      getPinValue (s.masked word) g.toUInt32 = 1

/-- The main thread is between the calls of a report, or between the final report and the end of the
run. -/
def System.UnderReport (s : System) : Prop :=
  s.main = .dumping ∨ s.main = .summing ∨ s.main = .stopping ∨ s.main = .joining

/-- An action that counts no pulse while a report is being made or the run is being ended. -/
def Quiet (a : Action) (s : System) : Prop :=
  ∀ word, a = .readNext word → s.UnderReport → ¬s.CountsPulse word

/-- Channel by channel, with the level remembered for it. -/
theorem System.countsPulse_iff (s : System) (word : UInt32) : s.CountsPulse word ↔
    s.poller ≠ .reading (s.masked word) ∧
      (s.runner.m_decodeAndAccummulate.m_configured_channels.gpios.zip
        s.runner.m_decodeAndAccummulate.m_lastGpioValue).any fun (g, last) =>
          last = 0 ∧ getPinValue (s.masked word) g.toUInt32 = 1 := by
  simp only [System.CountsPulse, List.any_eq_true, decide_eq_true_eq, List.mem_iff_getElem?,
    List.getElem?_zip_eq_some, Prod.exists]
  refine and_congr_right fun _ => ⟨?_, ?_⟩
  · rintro ⟨i, g, hg, hlast, hlevel⟩
    exact ⟨g, 0, ⟨i, hg, hlast⟩, rfl, hlevel⟩
  · rintro ⟨g, _, ⟨i, hg, hlast⟩, rfl, hlevel⟩
    exact ⟨i, g, hg, hlast, hlevel⟩

instance (s : System) (word : UInt32) : Decidable (s.CountsPulse word) :=
  decidable_of_iff' _ (s.countsPulse_iff word)

instance (s : System) : Decidable s.UnderReport := inferInstanceAs (Decidable (_ ∨ _ ∨ _ ∨ _))

instance (a : Action) (s : System) : Decidable (Quiet a s) :=
  match a with
  | .readNext word => decidable_of_iff (s.UnderReport → ¬s.CountsPulse word)
      ⟨fun h _ hword => Action.readNext.inj hword ▸ h, fun h => h word rfl⟩
  | .readFirst _ | .testRunning | .wake _ | .channels | .dumpDataToFile _ | .summary | .stop | .join =>
    isTrue fun _ hword => nomatch hword

/-- What is observed after a schedule of actions that are all let through is observed at the end of a
run. -/
theorem run_of_schedule (p : Platform) (rpi : RPiInterface) (config : PulseCounterConfiguration)
    (cc : ConfiguredChannels) (ok : Action → System → Prop) [∀ a s, Decidable (ok a s)]
    (actions : List Action) {β : Type} (f : System → β) (b : β)
    (h : ((start rpi config cc).toOption.join.bind ((machine p rpi config).guarded ok |>.exec actions)).map
      (Except.map f) = some (.ok b)) :
    ∃ s₀ s, start rpi config cc = .ok (some s₀) ∧ (machine p rpi config).Run ok s₀ s ∧ f s = b := by
  cases hstart : start rpi config cc with
  | error fault =>
    rw [hstart] at h
    cases h
  | ok started =>
    rw [hstart] at h
    cases started with
    | none => cases h
    | some s₀ =>
      obtain ⟨s, hs, hfs⟩ := Machine.Run.of_exec f actions h
      exact ⟨s₀, s, rfl, hs, hfs⟩

/-- A word in which the decoder counts no pulse leaves the counts as they are. -/
theorem decoded_counts (hrange : cc.InRange)
    (hsaw : Saw cc s.shown s.runner.m_decodeAndAccummulate) {word last : UInt32}
    {d : DecodeGpioRegsAndAccumulate} {changesDetected : Bool} (hpc : s.poller = .reading last)
    (hne : s.masked word ≠ last)
    (hrun : s.runner.m_decodeAndAccummulate.process (s.masked word) = .ok (d, changesDetected))
    (hquiet : ¬s.CountsPulse word) : (s.decoded d word).counts = s.counts := by
  obtain ⟨d', hrun', hsaw', -⟩ := hsaw.process hrange (s.masked word)
  rw [hrun] at hrun'
  injection hrun' with hd
  injection hd with hd _
  subst hd
  change d.m_gpioPinAccumulation = s.runner.m_decodeAndAccummulate.m_gpioPinAccumulation
  rw [hsaw'.accumulation, hsaw.accumulation]
  unfold countsAfter
  refine List.map_congr_left fun g hg => ?_
  obtain ⟨i, hi⟩ := List.mem_iff_getElem?.mp hg
  rw [Signal.rises_concat]
  cases hlevel : bit g (s.shown.getLastD 0) with
  | true => rw [Signal.edge_true_left, Nat.add_zero]
  | false =>
    cases hbit : bit g (s.masked word) with
    | false => rw [Signal.edge_false_right, Nat.add_zero]
    | true =>
      -- the channel would count a pulse
      refine absurd ⟨?_, i, g, ?_, ?_, ?_⟩ hquiet
      · rw [hpc]
        intro h
        injection h with h
        exact hne h.symm
      · rw [hsaw.channels]
        exact hi
      · rw [hsaw.tallies.last, hsaw.channels, List.getElem?_map, hi, Option.map_some, hlevel]
        rfl
      · rw [getPinValue_eq (hrange g hg), hbit]
        rfl

namespace System

/-- The reports made so far are complete. -/
def Past (s : System) : Prop := ∀ e ∈ s.emitted, e.point < s.point

/-- The calls of the report that is being made are of the counts as they are. -/
def Current (s : System) : Prop :=
  ∀ e ∈ s.emitted, e.point ≤ s.point ∧ (e.point = s.point → e.report.result = s.counts)

/-- The counts line of the report has been shown. -/
def ShowedChannels (s : System) : Prop :=
  ∃ e ∈ s.emitted, e.point = s.point ∧ e.report = .channels s.counts

/-- The summary of the report has been shown. -/
def ShowedSummary (s : System) : Prop :=
  ∃ e ∈ s.emitted, e.point = s.point ∧ ∃ duration, e.report = .summary s.counts duration

/-- The calls for reports, by where the main thread stands. -/
def ReportedAt (s : System) : MainPc → Prop
  | .looping => s.Past
  | .reporting => s.Past
  | .dumping => s.Current
  | .summing => s.Current ∧ s.ShowedChannels
  | .stopping => s.Current ∧ s.ShowedChannels ∧ s.ShowedSummary
  | .joining => s.Current ∧ s.ShowedChannels ∧ s.ShowedSummary
  | .finished => s.Current ∧ s.ShowedChannels ∧ s.ShowedSummary

theorem ReportedAt.frame {pc : MainPc} (h : s.ReportedAt pc) (hemitted : t.emitted = s.emitted)
    (hpoint : t.point = s.point) (hcounts : t.counts = s.counts) : t.ReportedAt pc := by
  cases pc <;>
    simpa only [ReportedAt, Past, Current, ShowedChannels, ShowedSummary, hemitted, hpoint, hcounts]
      using h

/-- The first call of a report. -/
theorem Past.current (h : s.Past) (report : Report) (hresult : report.result = s.counts)
    (opened : Bool) (text : List Char) : (s.reported opened report text).Current := by
  intro e he
  rcases List.mem_append.mp he with he | he
  · exact ⟨Nat.le_of_lt (h e he), fun hpoint => absurd hpoint (Nat.ne_of_lt (h e he))⟩
  · obtain rfl := List.mem_singleton.mp he
    exact ⟨Nat.le_refl _, fun _ => hresult⟩

/-- A further call of a report. -/
theorem Current.reported (h : s.Current) (report : Report) (hresult : report.result = s.counts)
    (opened : Bool) (text : List Char) : (s.reported opened report text).Current := by
  intro e he
  rcases List.mem_append.mp he with he | he
  · exact h e he
  · obtain rfl := List.mem_singleton.mp he
    exact ⟨Nat.le_refl _, fun _ => hresult⟩

end System

/-- What a quiet run keeps: calls for one report are of one vector. -/
structure Agreed (s : System) : Prop where
  same : ∀ e ∈ s.emitted, ∀ e' ∈ s.emitted, e.point = e'.point → e.report.result = e'.report.result
  reported : s.ReportedAt s.main
  joined : s.main = .finished → s.poller = .exited

namespace Agreed

/-- A call for a report of the counts as they are. -/
theorem same_reported (h : Agreed s) {opened : Bool} {report : Report} {text : List Char}
    (hcurrent : (s.reported opened report text).Current) :
    ∀ e ∈ (s.reported opened report text).emitted, ∀ e' ∈ (s.reported opened report text).emitted,
      e.point = e'.point → e.report.result = e'.report.result := by
  intro e he e' he' hpoint
  by_cases hnow : e.point = s.point
  · rw [(hcurrent e he).2 hnow, (hcurrent e' he').2 (hpoint.symm.trans hnow)]
  · have hold : ∀ f ∈ (s.reported opened report text).emitted, f.point ≠ s.point → f ∈ s.emitted := by
      intro f hf hne
      rcases List.mem_append.mp hf with hf | hf
      · exact hf
      · obtain rfl := List.mem_singleton.mp hf
        exact absurd rfl hne
    exact h.same e (hold e he hnow) e' (hold e' he' (hpoint ▸ hnow)) hpoint

/-- A step of the polling thread that leaves the counts as they are or does not disturb a report. -/
theorem polled (h : Agreed s) (hmain : t.main = s.main) (hemitted : t.emitted = s.emitted)
    (hpoint : t.point = s.point) (hcounts : s.UnderReport → t.counts = s.counts)
    (hpoller : s.poller ≠ .exited) : Agreed t := by
  have hnot : s.main ≠ .finished := fun hm => hpoller (h.joined hm)
  refine ⟨by rw [hemitted]; exact h.same, ?_, fun hm => absurd (hmain.symm.trans hm) hnot⟩
  have hreported := h.reported
  rw [hmain]
  by_cases hunder : s.UnderReport
  · exact hreported.frame hemitted hpoint (hcounts hunder)
  · unfold System.UnderReport at hunder
    cases hpc : s.main with
    | looping | reporting =>
      rw [hpc] at hreported
      intro e he
      rw [hpoint]
      rw [hemitted] at he
      exact hreported e he
    | dumping | summing | stopping | joining => simp [hpc] at hunder
    | finished => exact absurd hpc hnot

theorem steps (hrange : cc.InRange) (hinv : Inv p rpi config cc s) (h : Agreed s) {a : Action}
    (hs : Steps p rpi config s a t) (hquiet : Quiet a s) : Agreed t := by
  have hreported := h.reported
  cases hs with
  | readFirst word hpc => exact h.polled rfl rfl rfl (fun _ => rfl) (by rw [hpc]; simp)
  | testRunning last hpc => exact h.polled rfl rfl rfl (fun _ => rfl) (by rw [hpc]; simp)
  | skip word last hpc hsame => exact h.polled rfl rfl rfl (fun _ => rfl) (by rw [hpc]; simp)
  | process word last d changesDetected hpc hne hrun =>
    refine h.polled rfl rfl rfl (fun hunder => ?_) (by rw [hpc]; simp)
    exact decoded_counts hrange hinv.saw hpc hne hrun (hquiet word rfl hunder)
  | wake elapsed hpc hprocess hgap =>
    rw [hpc] at hreported
    refine ⟨h.same, ?_, ?_⟩
    · unfold System.woken
      split
      · exact hreported
      · exact hreported
    · unfold System.woken
      intro hfinished
      split at hfinished <;> cases hfinished
  | channels text hpc htext =>
    rw [hpc] at hreported
    have hcurrent := hreported.current (.channels s.counts) rfl true text
    exact ⟨h.same_reported hcurrent, hcurrent, fun hfinished => nomatch hfinished⟩
  | dumpDataToFile opened text hpc htext =>
    rw [hpc] at hreported
    have hcurrent := hreported.reported (.dumpDataToFile s.counts s.loop.duration) rfl opened text
    refine ⟨h.same_reported hcurrent, fun e he => ?_, fun hfinished => nomatch hfinished⟩
    exact Nat.lt_succ_of_le (hcurrent e he).1
  | lastChannels text hpc hprocess htext =>
    rw [hpc] at hreported
    have hcurrent := hreported.current (.channels s.counts) rfl true text
    refine ⟨h.same_reported hcurrent, ⟨hcurrent, ?_⟩, fun hfinished => nomatch hfinished⟩
    exact ⟨_, List.mem_append_right _ List.mem_cons_self, rfl, rfl⟩
  | summary text hpc htext =>
    rw [hpc] at hreported
    obtain ⟨hcurrent, e, he, hshown⟩ := hreported
    have hcurrent' := hcurrent.reported (.summary s.counts s.loop.duration) rfl true text
    refine ⟨h.same_reported hcurrent', ⟨hcurrent', ⟨e, List.mem_append_left _ he, hshown⟩, ?_⟩,
      fun hfinished => nomatch hfinished⟩
    exact ⟨_, List.mem_append_right _ List.mem_cons_self, rfl, _, rfl⟩
  | stop hpc =>
    rw [hpc] at hreported
    exact ⟨h.same, hreported, fun hfinished => nomatch hfinished⟩
  | join hpc hexited =>
    rw [hpc] at hreported
    exact ⟨h.same, hreported, fun _ => hexited⟩

end Agreed

/-- **One vector for each report, and the last one complete.** In every run whose decoder counts no
pulse while a report is being made or the run is being ended, the calls for one report are of the same
vector of counts, and when the polling thread has been stopped and joined, the final report has shown
the accumulated counts and their summary. -/
theorem reports_consistent (p : Platform) (rpi : RPiInterface) (config : PulseCounterConfiguration)
    (cc : ConfiguredChannels) (s₀ s : System) (hstart : start rpi config cc = .ok (some s₀))
    (hrun : (machine p rpi config).Run Quiet s₀ s) :
    (∀ e ∈ s.emitted, ∀ e' ∈ s.emitted, e.point = e'.point → e.report.result = e'.report.result) ∧
      (s.main = .finished →
        (∀ e ∈ s.emitted, e.point = s.point → e.report.result = s.counts) ∧
          (∃ e ∈ s.emitted, e.point = s.point ∧ e.report = .channels s.counts) ∧
          ∃ e ∈ s.emitted, e.point = s.point ∧ ∃ duration, e.report = .summary s.counts duration) := by
  obtain ⟨-, hn, hrange⟩ := channels_of_start hstart
  obtain ⟨hinv, hmain, hemitted⟩ := inv_of_start p hstart
  have hagreed : Agreed s₀ := by
    refine ⟨?_, ?_, ?_⟩
    · intro e he
      rw [hemitted] at he
      cases he
    · rw [hmain]
      intro e he
      rw [hemitted] at he
      cases he
    · intro hfinished
      rw [hmain] at hfinished
      cases hfinished
  obtain ⟨-, hagreed⟩ := hrun.invariant
    (fun t => Inv p rpi config (cc.addChannels config.activePins) t ∧ Agreed t) ⟨hinv, hagreed⟩
    (by
      rintro a u v hquiet ⟨hu, hau⟩ hstep
      obtain ⟨w, hw, hsteps⟩ := step_spec hn hrange hu.saw hstep
      injection hw with hw
      subst hw
      exact ⟨hu.steps hrange hsteps, hau.steps hrange hu hsteps hquiet⟩)
  refine ⟨hagreed.same, fun hfinished => ?_⟩
  have hreported := hagreed.reported
  rw [hfinished] at hreported
  obtain ⟨hcurrent, hchannels, hsummary⟩ := hreported
  exact ⟨fun e he => (hcurrent e he).2, hchannels, hsummary⟩

/-- A run of one second: pin 11 rises before the first report and again before the final one, and it falls
between the two calls of the first. -/
theorem reports_consistent_second :
    ∃ s₀ s, start (RPiInterfaceReal 7) { activePins := [11], duration := 1 }
        (.new (RPiInterfaceReal 7)) = .ok (some s₀) ∧
      (machine .saturating (RPiInterfaceReal 7) { activePins := [11], duration := 1 }).Run Quiet s₀ s ∧
      s.main = .finished ∧ s.counts = [2] ∧ s.shown = [0x20000, 0, 0x20000] ∧
      s.emitted.map (fun e => (e.point, e.seen, e.report.result)) =
        [(0, 1, [1]), (0, 2, [1]), (1, 3, [2]), (1, 3, [2])] ∧
      (∀ e ∈ s.emitted, ∀ e' ∈ s.emitted, e.point = e'.point → e.report.result = e'.report.result) ∧
      (∀ e ∈ s.emitted, e.point = s.point → e.report.result = s.counts) := by
  obtain ⟨s₀, s, hstart, hrun, hobserved⟩ := run_of_schedule .saturating (RPiInterfaceReal 7)
    { activePins := [11], duration := 1 } (.new (RPiInterfaceReal 7)) Quiet
    [.readFirst 0, .testRunning, .readNext 0x20000, .testRunning, .wake 1000, .channels, .readNext 0,
      .dumpDataToFile true, .testRunning, .readNext 0x20000, .channels, .testRunning, .summary,
      .readNext 0x20000, .stop, .testRunning, .join]
    (fun s => decide (s.main = .finished ∧ s.counts = [2] ∧ s.shown = [0x20000, 0, 0x20000] ∧
      s.emitted.map (fun e => (e.point, e.seen, e.report.result)) =
        [(0, 1, [1]), (0, 2, [1]), (1, 3, [2]), (1, 3, [2])])) true (by decide +kernel)
  obtain ⟨hmain, hcounts, hshown, hemitted⟩ := of_decide_eq_true hobserved
  obtain ⟨hsame, hfinal⟩ := reports_consistent _ _ _ _ s₀ s hstart hrun
  exact ⟨s₀, s, hstart, hrun, hmain, hcounts, hshown, hemitted, hsame, (hfinal hmain).1⟩

/-- A pulse between the two calls of a report is in the status file and not in the counts line. -/
theorem reports_inconsistent :
    ¬∀ (p : Platform) (rpi : RPiInterface) (config : PulseCounterConfiguration) (s₀ s : System),
      start rpi config (.new rpi) = .ok (some s₀) → (machine p rpi config).Reachable s₀ s →
      ∀ e ∈ s.emitted, ∀ e' ∈ s.emitted, e.point = e'.point →
        e.report.result = e'.report.result := by
  intro h
  obtain ⟨s₀, s, hstart, hreach, hobserved⟩ := reachable_of_schedule .saturating
    (RPiInterfaceReal 7) { activePins := [11] } (.new (RPiInterfaceReal 7))
    [.readFirst 0, .testRunning, .wake 1000, .channels, .readNext 0x20000, .dumpDataToFile true]
    (fun s => s.emitted.map fun e => (e.point, e.report.result)) [(0, [0]), (0, [1])]
    (by decide +kernel)
  have hmem : ∀ c, (0, [c]) ∈ s.emitted.map (fun e => (e.point, e.report.result)) ↔ c = 0 ∨ c = 1 := by
    rw [hobserved]
    simp
  obtain ⟨e, he, heq⟩ := List.mem_map.mp ((hmem 0).mpr (Or.inl rfl))
  obtain ⟨e', he', heq'⟩ := List.mem_map.mp ((hmem 1).mpr (Or.inr rfl))
  injection heq with hpoint hresult
  injection heq' with hpoint' hresult'
  have hsame := h _ _ _ s₀ s hstart hreach e he e' he' (hpoint.trans hpoint'.symm)
  rw [hresult, hresult'] at hsame
  exact absurd hsame (by decide)

end PulseCounterMain

end PulseCounter
