import PulseCounter.Verify.Threads

/-!
# All interleavings of the small steps

A run in small steps displays the reports of some run in which each call is one step, and every such run
is one in small steps, each call made without the other thread in between (`Steps.small_steps`). So the
results about the machine of `PulseCounterMain` hold of all interleavings of the small steps
(`small_steps_refine`).

The threads wait for each other at the mutex and in `join` only, and whoever holds the mutex can go on, so
no run is stuck before its end (`threads_never_stuck`).
-/

namespace PulseCounter.PulseCounterMain

open DecodeGpioRegsAndAccumulate

variable {p : Platform} {rpi : RPiInterface} {config : PulseCounterConfiguration}
  {cc : ConfiguredChannels} {s s₀ t : System}

/-! ## Calls in small steps -/

section Calls

/-- A run of one small step. -/
theorem SmallSteps.run {x y : Threads} {a : SmallAction} (h : SmallSteps p rpi config x a y) :
    (Threads.machine p rpi config).Reachable x y := .of_step h.step_eq

/-- A call of `process` with nothing in between. -/
theorem process_small_steps (hrange : cc.InRange) (h : Inv p rpi config cc s) {word last : UInt32}
    {d : DecodeGpioRegsAndAccumulate} {changesDetected : Bool} (hpc : s.poller = .reading last)
    (hne : s.masked word ≠ last)
    (hrun : s.runner.m_decodeAndAccummulate.process (s.masked word) = .ok (d, changesDetected)) :
    (Threads.machine p rpi config).Reachable (.start s) (.start (s.decoded d word)) := by
  have hcc : s.decoder.m_configured_channels = cc := h.saw.channels
  -- the loop of the call, with the machine at its heels
  obtain ⟨⟨e, changes⟩, hrun', hduring, hreach⟩ :
      ∃ s', s.decoder.process (s.masked word) = .ok s' ∧
        During s.decoder (fun g => Signal.rises (bit g) 0 s.shown) (fun g => bit g (s.shown.getLastD 0))
          (s.masked word) s.decoder.m_configured_channels.totalChannels s' ∧
        (Threads.machine p rpi config).Reachable (.start s)
          ⟨s.withDecoder s'.1, some .poller,
            .inLoop word s.decoder.m_configured_channels.totalChannels s'.2, .returned⟩ := by
    refine Loop.forUpTo_rule (fun j s' =>
      During s.decoder (fun g => Signal.rises (bit g) 0 s.shown) (fun g => bit g (s.shown.getLastD 0))
          (s.masked word) j s' ∧
        (Threads.machine p rpi config).Reachable (.start s)
          ⟨s.withDecoder s'.1, some .poller, .inLoop word j s'.2, .returned⟩)
      ⟨⟨rfl, rfl, h.saw.tallies.partway _, rfl⟩, ?_⟩ ?_
    · have hcalled : (Threads.machine p rpi config).Reachable (.start s)
          { Threads.start s with process := .called word } :=
        SmallSteps.run (.callProcess word last hpc rfl hne)
      exact hcalled.trans (SmallSteps.run (.lockProcess word rfl rfl))
    · rintro i ⟨e, changes⟩ hi ⟨hduring, hreach⟩
      obtain ⟨⟨e', changes'⟩, hbody, hduring'⟩ :=
        processChannel_during (by rw [hcc]; exact hrange) hi hduring
      refine ⟨_, hbody, hduring',
        hreach.trans (SmallSteps.run (.processChannel word i changes _ e' rfl ?_ hbody))⟩
      have hchannels : e.m_configured_channels = s.decoder.m_configured_channels := hduring.channels
      change i < e.m_configured_channels.totalChannels
      rw [hchannels]
      exact hi
  have heq := hrun.symm.trans hrun'
  injection heq with heq
  injection heq with hd _
  subst hd
  have hchannels : d.m_configured_channels = s.decoder.m_configured_channels := hduring.channels
  refine hreach.trans (SmallSteps.run (.unlockProcess word _ _ rfl ?_))
  change d.m_configured_channels.totalChannels ≤ _
  rw [hchannels]

/-- The copying of the counts with nothing in between. -/
theorem copy_small_steps (s : System) {n : Nat} (hn : n ≤ s.counts.length) :
    (Threads.machine p rpi config).Reachable
      ⟨s.withDecoder s.decoder.clearLocal, some .main, .returned, .copying 0⟩
      ⟨s.withDecoder { s.decoder with m_gpioPinAccumulationLocal := s.counts.take n },
        some .main, .returned, .copying n⟩ := by
  induction n with
  | zero => exact .refl _ _
  | succ n ih =>
    have hcount : s.counts[n]? = some s.counts[n] := List.getElem?_eq_getElem hn
    rw [List.take_add_one, hcount]
    exact (ih (Nat.le_of_succ_le hn)).trans (SmallSteps.run (.copyChannel n _ rfl hcount))

/-- A call for a report with nothing in between. -/
theorem report_small_steps {call : List UInt32 → Report} (hnext : s.nextReport = some call)
    {opened : Bool} {text : List Char}
    (htext : (call s.counts).text (display config) p opened = .ok text) :
    (Threads.machine p rpi config).Reachable (.start s)
      (.start (s.reported opened (call s.counts) text).afterReport) := by
  have hclear : (Threads.machine p rpi config).Reachable (.start s)
      ⟨s.withDecoder s.decoder.clearLocal, none, .returned, .cleared⟩ :=
    SmallSteps.run (.clearLocal call rfl hnext)
  have hcopy := (hclear.trans (SmallSteps.run (.lockGetResult rfl rfl))).trans
    (copy_small_steps s (Nat.le_refl s.counts.length))
  rw [List.take_length] at hcopy
  have hunlock := hcopy.trans (SmallSteps.run (.unlockGetResult _ opened rfl (Nat.le_refl _)))
  exact hunlock.trans (SmallSteps.run (.display opened _ call text rfl hnext htext))

/-- **A step of the other machine** in small steps. -/
theorem Steps.small_steps (hrange : cc.InRange) (h : Inv p rpi config cc s) {a : Action}
    (hs : Steps p rpi config s a t) :
    (Threads.machine p rpi config).Reachable (.start s) (.start t) := by
  cases hs with
  | readFirst word hpc => exact SmallSteps.run (.readFirst word hpc)
  | testRunning last hpc => exact SmallSteps.run (.testRunning last hpc)
  | skip word last hpc hsame => exact SmallSteps.run (.skip word last hpc rfl hsame)
  | process word last d changesDetected hpc hne hrun => exact process_small_steps hrange h hpc hne hrun
  | wake elapsed hpc hprocess hgap => exact SmallSteps.run (.wake elapsed hpc hprocess hgap)
  | channels text hpc htext =>
    have hnext : s.nextReport = some .channels := by
      unfold System.nextReport
      rw [hpc]
    have hreach : (Threads.machine p rpi config).Reachable _ _ := report_small_steps hnext htext
    rw [System.afterReport_reporting ((s.reported_main _ _ _).trans hpc)] at hreach
    exact hreach
  | dumpDataToFile opened text hpc htext =>
    have hnext : s.nextReport = some (.dumpDataToFile · s.loop.duration) := by
      unfold System.nextReport
      rw [hpc]
    have hreach : (Threads.machine p rpi config).Reachable _ _ := report_small_steps hnext htext
    rw [System.afterReport_dumping ((s.reported_main _ _ _).trans hpc)] at hreach
    exact hreach
  | lastChannels text hpc hprocess htext =>
    have hnext : s.nextReport = some .channels := by
      unfold System.nextReport
      rw [hpc]
      exact if_neg (by rw [hprocess]; decide)
    have hreach : (Threads.machine p rpi config).Reachable _ _ := report_small_steps hnext htext
    rw [System.afterReport_looping ((s.reported_main _ _ _).trans hpc)] at hreach
    exact hreach
  | summary text hpc htext =>
    have hnext : s.nextReport = some (.summary · s.loop.duration) := by
      unfold System.nextReport
      rw [hpc]
    have hreach : (Threads.machine p rpi config).Reachable _ _ := report_small_steps hnext htext
    rw [System.afterReport_summing ((s.reported_main _ _ _).trans hpc)] at hreach
    exact hreach
  | stop hpc => exact SmallSteps.run (.stop hpc)
  | join hpc hexited => exact SmallSteps.run (.join hpc hexited)

end Calls

/-! ## The order in which a run ends -/

section Order

/-- The state in which a run starts. -/
theorem eq_of_start (h : start rpi config cc = .ok (some s)) :
    ∃ runner : PollAndAccumulateRunner, runner.m_keepThreadRunning = true ∧ s = {
      runner := runner
      poller := .starting
      loop := .new (rpi.millis 0)
      main := .looping
      header := (display config).header .stdout
      emitted := []
      point := 0
      elapsed := 0
      reads := []
      shown := [] } := by
  obtain ⟨hsetup, hn, hrange⟩ := channels_of_start h
  obtain ⟨mask, hmask, -⟩ := ConfiguredChannels.getChannelsMask_eq hrange
  obtain ⟨d, hnew⟩ := new_eq_ok hn
  unfold start PollAndAccumulateRunner.new at h
  rw [setUp_eq hsetup] at h
  simp only [hmask, hnew, bind, Except.bind, pure, Except.pure] at h
  injection h with h
  injection h with h
  exact ⟨_, rfl, h.symm⟩

/-- The flag of the loop is down when the time was up at the last clock reading, the polling thread is told
to stop after the final report, ends after that, and is joined last. -/
structure InOrder (rpi : RPiInterface) (config : PulseCounterConfiguration) (s : System) : Prop where
  keep : s.runner.m_keepThreadRunning = false ↔ s.main = .joining ∨ s.main = .finished
  exited : s.poller = .exited → s.runner.m_keepThreadRunning = false
  joined : s.main = .finished → s.poller = .exited
  process : s.main = .summing ∨ s.main = .stopping ∨ s.main = .joining ∨ s.main = .finished →
    s.loop.process = false
  begun : s.elapsed = 0 → s.loop.process = true
  due : s.elapsed ≠ 0 → s.loop.process =
    !(LoopState.new (rpi.millis 0)).timeUp config (rpi.millis s.elapsed)

namespace InOrder

theorem of_start (h : start rpi config cc = .ok (some s)) : InOrder rpi config s := by
  obtain ⟨runner, hkeep, rfl⟩ := eq_of_start h
  exact ⟨by simp [hkeep], by simp, by simp, by simp, fun _ => rfl, fun hne => absurd rfl hne⟩

/-- A step of the polling thread. -/
theorem polled (h : InOrder rpi config s) (hpoller : s.poller ≠ .exited) {poller : PollPc}
    {d : DecodeGpioRegsAndAccumulate} {reads shown : List UInt32}
    (hexited : poller = .exited → s.runner.m_keepThreadRunning = false) :
    InOrder rpi config (s.polled { s.runner with m_decodeAndAccummulate := d } poller reads shown) :=
  ⟨h.keep, hexited, fun hmain => absurd (h.joined hmain) hpoller, h.process, h.begun, h.due⟩

/-- A step of the main thread before it stops the polling thread. -/
theorem moved (h : InOrder rpi config s) {d : DecodeGpioRegsAndAccumulate} {loop : LoopState}
    {main : MainPc} {emitted : List Emission} {point : Nat}
    (hbefore : s.main ≠ .joining ∧ s.main ≠ .finished) (hafter : main ≠ .joining ∧ main ≠ .finished)
    (hloop : loop.process = s.loop.process)
    (hprocess : main = .summing ∨ main = .stopping → s.loop.process = false) :
    InOrder rpi config { s with
      runner := { s.runner with m_decodeAndAccummulate := d }
      loop := loop
      main := main
      emitted := emitted
      point := point } := by
  refine ⟨⟨fun hkeep => ?_, fun hmain => ?_⟩, h.exited, fun hmain => absurd hmain hafter.2,
    fun hmain => ?_, fun helapsed => hloop.trans (h.begun helapsed),
    fun helapsed => hloop.trans (h.due helapsed)⟩
  · rcases h.keep.mp hkeep with hmain | hmain
    · exact absurd hmain hbefore.1
    · exact absurd hmain hbefore.2
  · rcases hmain with hmain | hmain
    · exact absurd hmain hafter.1
    · exact absurd hmain hafter.2
  · rw [hloop]
    rcases hmain with hmain | hmain | hmain | hmain
    · exact hprocess (.inl hmain)
    · exact hprocess (.inr hmain)
    · exact absurd hmain hafter.1
    · exact absurd hmain hafter.2

theorem steps (hinv : Inv p rpi config cc s) (h : InOrder rpi config s) {a : Action}
    (hs : Steps p rpi config s a t) : InOrder rpi config t := by
  cases hs with
  | readFirst word hpc => exact h.polled (by rw [hpc]; simp) (by simp)
  | testRunning last hpc =>
    refine h.polled (by rw [hpc]; simp) fun hexited => ?_
    split at hexited
    · cases hexited
    · next hkeep => exact Bool.eq_false_iff.mpr hkeep
  | skip word last hpc hsame => exact h.polled (by rw [hpc]; simp) (by simp)
  | process word last d changesDetected hpc hne hrun => exact h.polled (by rw [hpc]; simp) (by simp)
  | wake elapsed hpc hprocess hgap =>
    have hdown : ¬(s.runner.m_keepThreadRunning = false) := by
      rw [h.keep, hpc]
      simp
    have hup : (s.woken config (rpi.millis elapsed) elapsed).loop.process =
        !(LoopState.new (rpi.millis 0)).timeUp config (rpi.millis elapsed) := by
      change (s.loop.wake config (rpi.millis elapsed)).process = _
      rw [LoopState.wake_eq, hprocess, Bool.and_true]
      unfold LoopState.timeUp
      rw [hinv.started]
      rfl
    have hmain : (s.woken config (rpi.millis elapsed) elapsed).main = .reporting ∨
        (s.woken config (rpi.millis elapsed) elapsed).main = .looping := by
      unfold System.woken
      split
      · exact .inl rfl
      · exact .inr rfl
    refine ⟨⟨fun hkeep => absurd hkeep hdown, fun hend => ?_⟩, h.exited, fun hend => ?_, fun hend => ?_,
      fun hzero => ?_, fun _ => hup⟩
    · rcases hmain with hmain | hmain <;> rw [hmain] at hend <;> simp at hend
    · rcases hmain with hmain | hmain <;> rw [hmain] at hend <;> cases hend
    · rcases hmain with hmain | hmain <;> rw [hmain] at hend <;> simp at hend
    · change elapsed = 0 at hzero
      omega
  | channels text hpc htext => exact h.moved (by rw [hpc]; simp) (by simp) rfl (by simp)
  | dumpDataToFile opened text hpc htext => exact h.moved (by rw [hpc]; simp) (by simp) rfl (by simp)
  | lastChannels text hpc hprocess htext =>
    exact h.moved (by rw [hpc]; simp) (by simp) rfl fun _ => hprocess
  | summary text hpc htext =>
    exact h.moved (by rw [hpc]; simp) (by simp) rfl fun _ => h.process (.inl hpc)
  | stop hpc =>
    refine ⟨by simp [PollAndAccumulateRunner.stop], fun _ => rfl, by simp, fun _ => ?_, h.begun, h.due⟩
    exact h.process (.inr (.inl hpc))
  | join hpc hexited =>
    have hkeep := h.keep.mpr (.inl hpc)
    exact ⟨by simp [hkeep], h.exited, fun _ => hexited,
      fun _ => h.process (.inr (.inr (.inl hpc))), h.begun, h.due⟩

end InOrder

end Order

/-! ## The same reports -/

section Reports

/-- A step adds one report at most. -/
theorem Steps.emitted {a : Action} (hs : Steps p rpi config s a t) :
    t.emitted = s.emitted ∨ ∃ e, t.emitted = s.emitted ++ [e] := by
  cases hs with
  | readFirst | testRunning | skip | process | wake | stop | join => exact .inl rfl
  | channels | dumpDataToFile | lastChannels | summary => exact .inr ⟨_, rfl⟩

theorem System.emitted_afterReport (s : System) : s.afterReport.emitted = s.emitted := by
  obtain ⟨_, _, _, main⟩ := s
  cases main <;> rfl

theorem Threads.emitted_prefix (x : Threads) :
    x.system.emitted <+: (x.settled p config).emitted := by
  unfold Threads.settled
  split
  · rw [System.emitted_afterReport]
    exact List.prefix_append _ _
  · exact List.prefix_refl _

theorem Threads.Follows.of_start (h : Inv p rpi config cc s) :
    Threads.Follows p rpi config cc (.start s) s :=
  ⟨h, rfl, ⟨by simp [Threads.start], h.saw⟩, by simp [Threads.CallAt, Threads.start]⟩

/-- A run that has ended: the reports, the words read and the counts. -/
def System.Ended (s : System) (emitted : List Emission) (reads counts : List UInt32) : Prop :=
  s.main = .finished ∧ s.emitted = emitted ∧ s.reads = reads ∧ s.counts = counts

/-- Both machines end in the same way. -/
theorem Threads.Follows.ended {x : Threads} (h : Threads.Follows p rpi config cc x t)
    (hjoined : t.main = .finished → t.poller = .exited) (emitted : List Emission)
    (reads counts : List UInt32) (hx : x.system.Ended emitted reads counts) :
    t.Ended emitted reads counts := by
  obtain ⟨hmain, hemitted, hreads, hcounts⟩ := hx
  have hnext : x.system.nextReport = none := by
    unfold System.nextReport
    rw [hmain]
  have ht := h.system_eq (Threads.settled_of_nextReport hnext)
  have hmain' : t.main = .finished := by
    rw [ht]
    exact hmain
  have hidle : x.process = .returned := h.idle fun last hreading => by
    have hexited := hjoined hmain'
    rw [h.poller, hreading] at hexited
    cases hexited
  have hprocess := h.process
  rw [hidle] at hprocess
  refine ⟨hmain', ?_, h.reads.trans hreads, ?_⟩
  · rw [ht]
    exact hemitted
  · have hcounts' : t.counts = countsAfter cc t.shown := h.inv.saw.accumulation
    rw [hcounts', h.shown, ← hprocess.2.accumulation]
    exact hcounts

/-- What the other machine reaches is reached in small steps. -/
theorem small_reachable (hstart : start rpi config cc = .ok (some s₀))
    (ht : (machine p rpi config).Reachable s₀ t) :
    Inv p rpi config (cc.addChannels config.activePins) t ∧ InOrder rpi config t ∧
      (Threads.machine p rpi config).Reachable (.start s₀) (.start t) := by
  obtain ⟨-, hn, hrange⟩ := channels_of_start hstart
  refine ht.invariant (fun t => Inv p rpi config _ t ∧ InOrder rpi config t ∧
    (Threads.machine p rpi config).Reachable (.start s₀) (.start t))
    ⟨(inv_of_start p hstart).1, .of_start hstart, .refl _ _⟩ ?_
  rintro a u v ⟨hu, horder, hreach⟩ hs
  obtain ⟨w, hw, hsteps⟩ := step_spec hn hrange hu.saw hs
  injection hw with hw
  subst hw
  exact ⟨hu.steps hrange hsteps, horder.steps hu hsteps, hreach.trans (hsteps.small_steps hrange hu)⟩

/-- What is reached in small steps follows what the other machine reaches. -/
theorem follows_of_reachable (hstart : start rpi config cc = .ok (some s₀)) {x : Threads}
    (hx : (Threads.machine p rpi config).Reachable (.start s₀) x) :
    (∃ t, (machine p rpi config).Reachable s₀ t ∧
      Threads.Follows p rpi config (cc.addChannels config.activePins) x t) ∧
      (Threads.machine p rpi config).Sound x := by
  obtain ⟨-, hn, hrange⟩ := channels_of_start hstart
  exact (Threads.simulates p rpi config hn hrange).reachable
    (Threads.Follows.of_start (inv_of_start p hstart).1) hx

/-- A step from a state that is reached is one of `SmallSteps`. -/
theorem small_steps_of_reachable (hstart : start rpi config cc = .ok (some s₀)) {u v : Threads}
    (hu : (Threads.machine p rpi config).Reachable (.start s₀) u) {a : SmallAction}
    (hs : (Threads.machine p rpi config).step a u = some (.ok v)) :
    ∃ t, Threads.Follows p rpi config (cc.addChannels config.activePins) u t ∧
      SmallSteps p rpi config u a v := by
  obtain ⟨-, hn, hrange⟩ := channels_of_start hstart
  obtain ⟨⟨t, -, h⟩, -⟩ := follows_of_reachable hstart hu
  obtain ⟨w, hw, hsteps⟩ := small_step_spec hn hrange h hs
  injection hw with hw
  exact ⟨t, h, hw ▸ hsteps⟩

/-- **The interleavings of the small steps** fail nowhere. Their runs display what the runs display in
which each call of `process` and each call for a report is one step, no less and no more, and end like
them. -/
theorem small_steps_refine (p : Platform) (rpi : RPiInterface) (config : PulseCounterConfiguration)
    (cc : ConfiguredChannels) (s₀ : System) (hstart : start rpi config cc = .ok (some s₀)) :
    (∀ x, (Threads.machine p rpi config).Reachable (.start s₀) x →
      (Threads.machine p rpi config).Sound x) ∧
    (∀ emitted,
      (∃ x, (Threads.machine p rpi config).Reachable (.start s₀) x ∧ x.system.emitted = emitted) ↔
        ∃ t, (machine p rpi config).Reachable s₀ t ∧ t.emitted = emitted) ∧
    ∀ emitted reads counts,
      (∃ x, (Threads.machine p rpi config).Reachable (.start s₀) x ∧
        x.system.Ended emitted reads counts) ↔
        ∃ t, (machine p rpi config).Reachable s₀ t ∧ t.Ended emitted reads counts := by
  obtain ⟨-, hn, hrange⟩ := channels_of_start hstart
  obtain ⟨-, -, hemitted⟩ := inv_of_start p hstart
  refine ⟨fun x hx => (follows_of_reachable hstart hx).2, fun emitted => ⟨?_, ?_⟩,
    fun emitted reads counts => ⟨?_, ?_⟩⟩
  · -- a report in hand has not been displayed: go back to before it was made
    rintro ⟨x, hx, rfl⟩
    obtain ⟨⟨t, ht, h⟩, -⟩ := follows_of_reachable hstart hx
    refine ht.log System.emitted (fun a u v hu hs => ?_) ?_ ?_
    · obtain ⟨w, hw, hsteps⟩ := step_spec hn hrange (small_reachable hstart hu).1.saw hs
      injection hw with hw
      subst hw
      exact hsteps.emitted
    · rw [hemitted]
      exact List.nil_prefix
    · rw [h.system]
      exact x.emitted_prefix
  · rintro ⟨t, ht, rfl⟩
    exact ⟨_, (small_reachable hstart ht).2.2, rfl⟩
  · rintro ⟨x, hx, hended⟩
    obtain ⟨⟨t, ht, h⟩, -⟩ := follows_of_reachable hstart hx
    exact ⟨t, ht, h.ended (small_reachable hstart ht).2.1.joined emitted reads counts hended⟩
  · rintro ⟨t, ht, hended⟩
    exact ⟨_, (small_reachable hstart ht).2.2, hended⟩

/-- The small steps of a call for a report on one channel. -/
def SmallAction.report : List SmallAction :=
  [.clearLocal, .lockGetResult, .copyChannel, .unlockGetResult true, .display]

/-- What is observed after a schedule of small steps is observed in a state that is reached. -/
theorem threads_of_schedule (p : Platform) (rpi : RPiInterface) (config : PulseCounterConfiguration)
    (cc : ConfiguredChannels) (actions : List SmallAction) {β : Type} (f : Threads → β) (b : β)
    (h : (Threads.schedule p rpi config cc actions).map (Except.map f) = some (.ok b)) :
    ∃ s₀ x, start rpi config cc = .ok (some s₀) ∧
      (Threads.machine p rpi config).exec actions (.start s₀) = some (.ok x) ∧ f x = b := by
  unfold Threads.schedule at h
  split at h
  · next s₀ hstart =>
    obtain ⟨x, hx, hfx⟩ := Machine.exec_of_observed h
    exact ⟨s₀, x, hstart, hx, hfx⟩
  · cases h
  · cases h

/-- The polling thread reads a word and waits for the mutex while the counts are copied, and goes through
the channels while they are in the hands of the main thread. -/
def SmallAction.overlapping : List SmallAction :=
  [.readFirst 0, .testRunning, .wake 1000, .clearLocal, .lockGetResult, .readNext 0x20000, .copyChannel,
    .unlockGetResult true, .lockProcess, .processChannel]

/-- The counts displayed are those from before the word that is just being counted. -/
theorem small_steps_refine_overlapping :
    ∃ s₀ u x t, start (RPiInterfaceReal 7) { activePins := [11] } (.new (RPiInterfaceReal 7)) =
        .ok (some s₀) ∧
      (Threads.machine .saturating (RPiInterfaceReal 7) { activePins := [11] }).exec
        SmallAction.overlapping (.start s₀) = some (.ok u) ∧
      u.process = .inLoop 0x20000 1 true ∧ u.call = .displaying true 0 ∧ u.system.counts = [1] ∧
      (Threads.machine .saturating (RPiInterfaceReal 7) { activePins := [11] }).exec
        [.display, .unlockProcess] u = some (.ok x) ∧
      (machine .saturating (RPiInterfaceReal 7) { activePins := [11] }).Reachable s₀ t ∧
      t.emitted = x.system.emitted ∧
      t.emitted.map (fun e => (e.elapsed, e.seen, e.report)) = [(1000, 0, .channels [0])] := by
  obtain ⟨s₀, u, hstart, hexec, hobserved⟩ := threads_of_schedule .saturating (RPiInterfaceReal 7)
    { activePins := [11] } (.new (RPiInterfaceReal 7)) SmallAction.overlapping
    (fun u => (u.process, u.call, u.system.counts)) (.inLoop 0x20000 1 true, .displaying true 0, [1])
    (by decide +kernel)
  injection hobserved with hprocess hobserved
  injection hobserved with hcall hcounts
  obtain ⟨s₀', x, hstart', hexec', hemitted⟩ := threads_of_schedule .saturating (RPiInterfaceReal 7)
    { activePins := [11] } (.new (RPiInterfaceReal 7))
    (SmallAction.overlapping ++ [.display, .unlockProcess])
    (fun x => x.system.emitted.map fun e => (e.elapsed, e.seen, e.report))
    [(1000, 0, .channels [0])] (by decide +kernel)
  rw [hstart] at hstart'
  injection hstart' with hstart'
  injection hstart' with hstart'
  subst hstart'
  obtain ⟨t, ht, hsame⟩ :=
    ((small_steps_refine _ _ _ _ s₀ hstart).2.1 x.system.emitted).mp ⟨x, .of_exec hexec', rfl⟩
  rw [Machine.exec_append, hexec] at hexec'
  exact ⟨s₀, u, x, t, hstart, hexec, hprocess, hcall, hcounts, hexec', ht, hsame, hsame ▸ hemitted⟩

end Reports

/-! ## Waiting -/

section Waiting

namespace Threads

/-- The thread can take a step. -/
def CanStep (p : Platform) (rpi : RPiInterface) (config : PulseCounterConfiguration)
    (thread : Thread) (x : Threads) : Prop :=
  ∃ a y, a.thread = thread ∧ (machine p rpi config).step a x = some (.ok y)

variable {x y : Threads}

theorem CanStep.of_small {a : SmallAction} (h : SmallSteps p rpi config x a y) :
    CanStep p rpi config a.thread x := ⟨a, y, rfl, h.step_eq⟩

namespace Follows

/-- Inside its loop the polling thread goes on. -/
theorem poller_inLoop (hrange : cc.InRange) (h : Follows p rpi config cc x t) {word : UInt32} {i : Nat}
    {changesDetected : Bool} (hpc : x.process = .inLoop word i changesDetected) :
    CanStep p rpi config .poller x := by
  have hprocess := h.process
  rw [hpc] at hprocess
  obtain ⟨-, -, hcc, hpart⟩ := hprocess
  by_cases hi : i < x.system.decoder.m_configured_channels.totalChannels
  · have hlen : i < x.system.decoder.m_configured_channels.gpios.length := by
      rw [ConfiguredChannels.length_gpios]
      exact hi
    obtain ⟨d, hrun, -⟩ := processChannel_partway (by rw [hcc]; exact hrange)
      (List.getElem?_eq_getElem hlen) hpart changesDetected
    exact .of_small (.processChannel word i changesDetected _ d hpc hi hrun)
  · exact .of_small (.unlockProcess word i changesDetected hpc (Nat.le_of_not_lt hi))

/-- While it copies, the main thread goes on. -/
theorem main_copying {i : Nat} (hpc : x.call = .copying i) : CanStep p rpi config .main x := by
  by_cases hi : i < x.system.decoder.m_gpioPinAccumulation.length
  · exact .of_small (.copyChannel i _ hpc (List.getElem?_eq_getElem hi))
  · exact .of_small (.unlockGetResult i true hpc (Nat.le_of_not_lt hi))

/-- With a vector in its hands, the main thread goes on. -/
theorem main_displaying (hn : cc.totalChannels ≠ 0) (h : Follows p rpi config cc x t) {opened : Bool}
    {seen : Nat} (hpc : x.call = .displaying opened seen) : CanStep p rpi config .main x := by
  have hcall := h.call
  rw [hpc] at hcall
  obtain ⟨-, hsome, -, hcopied⟩ := hcall
  obtain ⟨call, hnext⟩ := Option.isSome_iff_exists.mp hsome
  have hresult : (call x.system.decoder.m_gpioPinAccumulationLocal).result ≠ [] := by
    rw [System.result_nextReport hnext, hcopied]
    exact countsAfter_ne_nil hn _
  obtain ⟨text, htext⟩ := Report.text_eq_ok (display config) p opened _ hresult
  exact .of_small (.display opened seen call text hpc hnext htext)

/-- The thread that holds the mutex can go on. -/
theorem holder (hrange : cc.InRange) (h : Follows p rpi config cc x t) {thread : Thread}
    (howner : x.m_accumulate_mutex = some thread) : CanStep p rpi config thread x := by
  cases thread with
  | poller =>
    have hprocess := h.process
    cases hpc : x.process with
    | returned =>
      rw [hpc] at hprocess
      exact absurd howner hprocess.1
    | called word =>
      rw [hpc] at hprocess
      exact absurd howner hprocess.1
    | inLoop word i changesDetected => exact h.poller_inLoop hrange hpc
  | main =>
    have hcall := h.call
    cases hpc : x.call with
    | returned =>
      rw [hpc] at hcall
      exact absurd howner hcall
    | cleared =>
      rw [hpc] at hcall
      exact absurd howner hcall.1
    | copying i => exact main_copying hpc
    | displaying opened seen =>
      rw [hpc] at hcall
      exact absurd howner hcall.1

/-- The polling thread is in `process` only while it is in its loop. -/
theorem not_exited (h : Follows p rpi config cc x t) (hpc : x.process ≠ .returned) :
    x.system.poller ≠ .exited := by
  intro hexited
  refine hpc (h.idle fun last hreading => ?_)
  rw [hexited] at hreading
  cases hreading

/-- The main thread is in a call for a report only while it is making one. -/
theorem reporting (h : Follows p rpi config cc x t) (hpc : x.call ≠ .returned) :
    x.system.nextReport ≠ none := fun hnext => hpc (h.returned hnext)

/-- The polling thread waits for the mutex only. -/
theorem poller_iff (hn : cc.totalChannels ≠ 0) (hrange : cc.InRange)
    (h : Follows p rpi config cc x t) :
    CanStep p rpi config .poller x ↔ x.system.poller ≠ .exited ∧
      ((∃ word, x.process = .called word) → x.m_accumulate_mutex = none) := by
  constructor
  · rintro ⟨a, y, hthread, hs⟩
    obtain ⟨z, hz, hsteps⟩ := small_step_spec hn hrange h hs
    have hreturned : x.process = .returned → (∃ word, x.process = .called word) →
        x.m_accumulate_mutex = none := by
      rintro hpc ⟨word, hword⟩
      rw [hpc] at hword
      cases hword
    cases hsteps with
    | readFirst word hpc =>
      have hidle := h.idle fun last hreading => by
        rw [hpc] at hreading
        cases hreading
      exact ⟨by rw [hpc]; simp, hreturned hidle⟩
    | testRunning last hpc =>
      have hidle := h.idle fun last hreading => by
        rw [hpc] at hreading
        cases hreading
      exact ⟨by rw [hpc]; simp, hreturned hidle⟩
    | skip word last hpc hidle hsame => exact ⟨by rw [hpc]; simp, hreturned hidle⟩
    | callProcess word last hpc hidle hne => exact ⟨by rw [hpc]; simp, hreturned hidle⟩
    | lockProcess word hpc hfree => exact ⟨h.not_exited (by rw [hpc]; simp), fun _ => hfree⟩
    | processChannel word i changesDetected changesDetected' d hpc hi hrun =>
      refine ⟨h.not_exited (by rw [hpc]; simp), ?_⟩
      rintro ⟨word', hword'⟩
      rw [hpc] at hword'
      cases hword'
    | unlockProcess word i changesDetected hpc hi =>
      refine ⟨h.not_exited (by rw [hpc]; simp), ?_⟩
      rintro ⟨word', hword'⟩
      rw [hpc] at hword'
      cases hword'
    | wake | clearLocal | lockGetResult | copyChannel | unlockGetResult | display | stop | join =>
      cases hthread
  · rintro ⟨hpoller, hmutex⟩
    cases hpc : x.process with
    | returned =>
      cases hreading : x.system.poller with
      | starting => exact .of_small (.readFirst 0 hreading)
      | testing last => exact .of_small (.testRunning last hreading)
      | reading last =>
        by_cases hsame : x.system.masked 0 = last
        · exact .of_small (.skip 0 last hreading hpc hsame)
        · exact .of_small (.callProcess 0 last hreading hpc hsame)
      | exited => exact absurd hreading hpoller
    | called word => exact .of_small (.lockProcess word hpc (hmutex ⟨word, hpc⟩))
    | inLoop word i changesDetected => exact h.poller_inLoop hrange hpc

/-- The main thread waits for the mutex and in `join` only. -/
theorem main_iff (hn : cc.totalChannels ≠ 0) (hrange : cc.InRange)
    (h : Follows p rpi config cc x t) :
    CanStep p rpi config .main x ↔ x.system.main ≠ .finished ∧
      (x.system.main = .joining → x.system.poller = .exited) ∧
      (x.call = .cleared → x.m_accumulate_mutex = none) := by
  have hnotNext : x.system.nextReport ≠ none → x.system.main ≠ .finished ∧ x.system.main ≠ .joining := by
    intro hnext
    constructor
    · intro hmain
      exact hnext (by unfold System.nextReport; rw [hmain])
    · intro hmain
      exact hnext (by unfold System.nextReport; rw [hmain])
  constructor
  · rintro ⟨a, y, hthread, hs⟩
    obtain ⟨z, hz, hsteps⟩ := small_step_spec hn hrange h hs
    cases hsteps with
    | readFirst | testRunning | skip | callProcess | lockProcess | processChannel | unlockProcess =>
      cases hthread
    | wake elapsed hmain hprocess hgap =>
      have hnext : x.system.nextReport = none := by
        unfold System.nextReport
        simp only [hmain, hprocess, if_true]
      refine ⟨by rw [hmain]; simp, by rw [hmain]; simp, ?_⟩
      rw [h.returned hnext]
      simp
    | clearLocal call hpc hnext =>
      obtain ⟨hfinished, hjoining⟩ := hnotNext (by rw [hnext]; simp)
      exact ⟨hfinished, fun hmain => absurd hmain hjoining, by rw [hpc]; simp⟩
    | lockGetResult hpc hfree =>
      obtain ⟨hfinished, hjoining⟩ := hnotNext (h.reporting (by rw [hpc]; simp))
      exact ⟨hfinished, fun hmain => absurd hmain hjoining, fun _ => hfree⟩
    | copyChannel i count hpc hcount =>
      obtain ⟨hfinished, hjoining⟩ := hnotNext (h.reporting (by rw [hpc]; simp))
      exact ⟨hfinished, fun hmain => absurd hmain hjoining, by rw [hpc]; simp⟩
    | unlockGetResult i opened hpc hi =>
      obtain ⟨hfinished, hjoining⟩ := hnotNext (h.reporting (by rw [hpc]; simp))
      exact ⟨hfinished, fun hmain => absurd hmain hjoining, by rw [hpc]; simp⟩
    | display opened seen call text hpc hnext htext =>
      obtain ⟨hfinished, hjoining⟩ := hnotNext (by rw [hnext]; simp)
      exact ⟨hfinished, fun hmain => absurd hmain hjoining, by rw [hpc]; simp⟩
    | stop hmain =>
      have hnext : x.system.nextReport = none := by
        unfold System.nextReport
        rw [hmain]
      refine ⟨by rw [hmain]; simp, by rw [hmain]; simp, ?_⟩
      rw [h.returned hnext]
      simp
    | join hmain hexited =>
      have hnext : x.system.nextReport = none := by
        unfold System.nextReport
        rw [hmain]
      refine ⟨by rw [hmain]; simp, fun _ => hexited, ?_⟩
      rw [h.returned hnext]
      simp
  · rintro ⟨hfinished, hjoining, hmutex⟩
    cases hpc : x.call with
    | returned =>
      cases hnext : x.system.nextReport with
      | some call => exact .of_small (.clearLocal call hpc hnext)
      | none =>
        unfold System.nextReport at hnext
        cases hmain : x.system.main with
        | looping =>
          simp only [hmain] at hnext
          have hprocess : x.system.loop.process = true := by
            by_contra hprocess
            rw [if_neg hprocess] at hnext
            cases hnext
          exact .of_small (.wake (x.system.elapsed + 1000) hmain hprocess (Nat.le_refl _))
        | reporting => simp [hmain] at hnext
        | dumping => simp [hmain] at hnext
        | summing => simp [hmain] at hnext
        | stopping => exact .of_small (.stop hmain)
        | joining => exact .of_small (.join hmain (hjoining hmain))
        | finished => exact absurd hmain hfinished
    | cleared => exact .of_small (.lockGetResult hpc (hmutex hpc))
    | copying i => exact main_copying hpc
    | displaying opened seen => exact h.main_displaying hn hpc

/-- Before the end of the run some thread can go on. -/
theorem someone (hn : cc.totalChannels ≠ 0) (hrange : cc.InRange) (h : Follows p rpi config cc x t)
    (hmain : x.system.main ≠ .finished) : ∃ thread, CanStep p rpi config thread x := by
  cases howner : x.m_accumulate_mutex with
  | some thread => exact ⟨thread, h.holder hrange howner⟩
  | none =>
    by_cases hexited : x.system.poller = .exited
    · exact ⟨.main, (h.main_iff hn hrange).mpr ⟨hmain, fun _ => hexited, fun _ => howner⟩⟩
    · exact ⟨.poller, (h.poller_iff hn hrange).mpr ⟨hexited, fun _ => howner⟩⟩

end Follows

end Threads

/-- **No run is stuck before its end.** In every state that small steps reach, the main thread can take a
step unless it has finished, waits in `join` for the polling thread, or waits for the mutex; the polling
thread can unless it has ended or waits for the mutex; the thread that holds the mutex can; and so can
some thread in any case until the main thread has finished. -/
theorem threads_never_stuck (p : Platform) (rpi : RPiInterface) (config : PulseCounterConfiguration)
    (cc : ConfiguredChannels) (s₀ : System) (hstart : start rpi config cc = .ok (some s₀))
    (x : Threads) (hx : (Threads.machine p rpi config).Reachable (.start s₀) x) :
    (Threads.CanStep p rpi config .main x ↔ x.system.main ≠ .finished ∧
      (x.system.main = .joining → x.system.poller = .exited) ∧
      (x.call = .cleared → x.m_accumulate_mutex = none)) ∧
    (Threads.CanStep p rpi config .poller x ↔ x.system.poller ≠ .exited ∧
      ((∃ word, x.process = .called word) → x.m_accumulate_mutex = none)) ∧
    (∀ thread, x.m_accumulate_mutex = some thread → Threads.CanStep p rpi config thread x) ∧
    (x.system.main ≠ .finished → ∃ thread, Threads.CanStep p rpi config thread x) := by
  obtain ⟨-, hn, hrange⟩ := channels_of_start hstart
  obtain ⟨⟨t, -, h⟩, -⟩ := follows_of_reachable hstart hx
  exact ⟨h.main_iff hn hrange, h.poller_iff hn hrange, fun thread => h.holder hrange,
    h.someone hn hrange⟩

/-- The polling thread holds the mutex, and the main thread waits for it. -/
theorem threads_never_stuck_waiting :
    ∃ s₀ x, start (RPiInterfaceReal 7) { activePins := [11] } (.new (RPiInterfaceReal 7)) =
        .ok (some s₀) ∧
      (Threads.machine .saturating (RPiInterfaceReal 7) { activePins := [11] }).Reachable (.start s₀) x ∧
      ¬Threads.CanStep .saturating (RPiInterfaceReal 7) { activePins := [11] } .main x ∧
      Threads.CanStep .saturating (RPiInterfaceReal 7) { activePins := [11] } .poller x := by
  obtain ⟨s₀, x, hstart, hexec, hobserved⟩ := threads_of_schedule .saturating (RPiInterfaceReal 7)
    { activePins := [11] } (.new (RPiInterfaceReal 7))
    [.readFirst 0, .testRunning, .wake 1000, .readNext 0x20000, .lockProcess, .clearLocal]
    (fun x => (x.m_accumulate_mutex, x.call)) (some .poller, .cleared) (by decide +kernel)
  have hreach := Machine.Reachable.of_exec hexec
  injection hobserved with howner hcleared
  obtain ⟨hmain, -, hholder, -⟩ := threads_never_stuck _ _ _ _ s₀ hstart x hreach
  refine ⟨s₀, x, hstart, hreach, fun hcan => ?_, hholder .poller howner⟩
  have hfree := (hmain.mp hcan).2.2 hcleared
  rw [howner] at hfree
  cases hfree

end Waiting

end PulseCounter.PulseCounterMain
