import PulseCounter.Verify.PendingReport

/-!
# Small steps and calls as one step

`SmallSteps` says once what a small step can do. In a state that follows one of the other machine no
small step fails (`small_step_spec`), and its successor follows one that the other machine reaches
(`Threads.Follows.steps`): for most small steps by standing still, and for the releases of the mutex by
the whole call. So the machine of small steps refines the other one (`Threads.simulates`).
-/

namespace PulseCounter.PulseCounterMain

open DecodeGpioRegsAndAccumulate

variable {p : Platform} {rpi : RPiInterface} {config : PulseCounterConfiguration}
  {cc : ConfiguredChannels}

theorem countsAfter_ne_nil (hn : cc.totalChannels ≠ 0) (words : List UInt32) :
    countsAfter cc words ≠ [] := by
  intro hnil
  have hlen := length_countsAfter cc words
  rw [hnil] at hlen
  exact hn hlen.symm

/-- What `Steps` allows, the machine does. -/
theorem Steps.step_eq {s t : System} {a : Action} (h : Steps p rpi config s a t) :
    step p rpi config a s = some (.ok t) := by
  cases h with
  | readFirst word hpc => simp only [step, hpc]
  | testRunning last hpc => simp only [step, hpc]
  | skip word last hpc hsame =>
    simp only [step, hpc]
    rw [PollAndAccumulateRunner.pollOnce_of_eq hsame, if_neg (not_not_intro hsame)]
    rfl
  | process word last d changesDetected hpc hne hrun =>
    simp only [step, hpc]
    rw [PollAndAccumulateRunner.pollOnce_of_ne hne, if_pos hne]
    change some (Except.bind (Except.map _ (s.runner.m_decodeAndAccummulate.process (s.masked word))) _)
      = _
    rw [hrun]
    rfl
  | wake elapsed hpc hprocess hgap =>
    simp only [step]
    rw [if_pos ⟨hpc, hprocess, hgap⟩]
    rfl
  | channels text hpc htext =>
    simp only [step, hpc, System.emit_eq, htext]
    rfl
  | dumpDataToFile opened text hpc htext =>
    simp only [step, hpc, System.emit_eq, htext]
    rfl
  | lastChannels text hpc hprocess htext =>
    simp only [step, hpc, System.emit_eq, htext, hprocess]
    rfl
  | summary text hpc htext =>
    simp only [step, hpc, System.emit_eq, htext]
    rfl
  | stop hpc => simp only [step, hpc]
  | join hpc hexited =>
    simp only [step]
    rw [if_pos ⟨hpc, hexited⟩]

/-! ## What a small step does -/

/-- The small steps of the two threads. -/
inductive SmallSteps (p : Platform) (rpi : RPiInterface) (config : PulseCounterConfiguration)
    (s : Threads) : SmallAction → Threads → Prop
  | readFirst (word : UInt32) : s.system.poller = .starting →
    SmallSteps p rpi config s (.readFirst word) { s with system := { s.system with
      poller := .testing (s.system.masked word)
      reads := s.system.reads ++ [word] } }
  | testRunning (last : UInt32) : s.system.poller = .testing last →
    SmallSteps p rpi config s .testRunning { s with system := { s.system with
      poller := if s.system.runner.m_keepThreadRunning then .reading last else .exited } }
  | skip (word last : UInt32) : s.system.poller = .reading last → s.process = .returned →
    s.system.masked word = last →
    SmallSteps p rpi config s (.readNext word) { s with system := { s.system with
      poller := .testing last
      reads := s.system.reads ++ [word] } }
  | callProcess (word last : UInt32) : s.system.poller = .reading last → s.process = .returned →
    s.system.masked word ≠ last →
    SmallSteps p rpi config s (.readNext word) { s with process := .called word }
  | lockProcess (word : UInt32) : s.process = .called word → s.m_accumulate_mutex = none →
    SmallSteps p rpi config s .lockProcess { s with
      m_accumulate_mutex := some .poller
      process := .inLoop word 0 false }
  | processChannel (word : UInt32) (i : Nat) (changesDetected changesDetected' : Bool)
    (d : DecodeGpioRegsAndAccumulate) : s.process = .inLoop word i changesDetected →
    i < s.system.decoder.m_configured_channels.totalChannels →
    DecodeGpioRegsAndAccumulate.processChannel (s.system.masked word) i
      (s.system.decoder, changesDetected) = .ok (d, changesDetected') →
    SmallSteps p rpi config s .processChannel { s with
      system := s.system.withDecoder d
      process := .inLoop word (i + 1) changesDetected' }
  | unlockProcess (word : UInt32) (i : Nat) (changesDetected : Bool) :
    s.process = .inLoop word i changesDetected →
    s.system.decoder.m_configured_channels.totalChannels ≤ i →
    SmallSteps p rpi config s .unlockProcess { s with
      system := { s.system with
        poller := .testing (s.system.masked word)
        reads := s.system.reads ++ [word]
        shown := s.system.shown ++ [s.system.masked word] }
      m_accumulate_mutex := none
      process := .returned }
  | wake (elapsed : Nat) : s.system.main = .looping → s.system.loop.process →
    s.system.elapsed + 1000 ≤ elapsed →
    SmallSteps p rpi config s (.wake elapsed) { s with
      system := s.system.woken config (rpi.millis elapsed) elapsed }
  | clearLocal (call : List UInt32 → Report) : s.call = .returned →
    s.system.nextReport = some call →
    SmallSteps p rpi config s .clearLocal { s with
      system := s.system.withDecoder s.system.decoder.clearLocal
      call := .cleared }
  | lockGetResult : s.call = .cleared → s.m_accumulate_mutex = none →
    SmallSteps p rpi config s .lockGetResult { s with
      m_accumulate_mutex := some .main
      call := .copying 0 }
  | copyChannel (i : Nat) (count : UInt32) : s.call = .copying i →
    s.system.decoder.m_gpioPinAccumulation[i]? = some count →
    SmallSteps p rpi config s .copyChannel { s with
      system := s.system.withDecoder { s.system.decoder with
        m_gpioPinAccumulationLocal := s.system.decoder.m_gpioPinAccumulationLocal ++ [count] }
      call := .copying (i + 1) }
  | unlockGetResult (i : Nat) (opened : Bool) : s.call = .copying i →
    s.system.decoder.m_gpioPinAccumulation.length ≤ i →
    SmallSteps p rpi config s (.unlockGetResult opened) { s with
      m_accumulate_mutex := none
      call := .displaying opened s.system.shown.length }
  | display (opened : Bool) (seen : Nat) (call : List UInt32 → Report) (text : List Char) :
    s.call = .displaying opened seen → s.system.nextReport = some call →
    (call s.system.decoder.m_gpioPinAccumulationLocal).text (display config) p opened = .ok text →
    SmallSteps p rpi config s .display { s with
      system := System.afterReport { s.system with
        emitted := s.system.emitted ++ [{
          report := call s.system.decoder.m_gpioPinAccumulationLocal
          text := text
          opened := (call s.system.decoder.m_gpioPinAccumulationLocal).opens opened
          point := s.system.point
          elapsed := s.system.elapsed
          seen := seen }] }
      call := .returned }
  | stop : s.system.main = .stopping →
    SmallSteps p rpi config s .stop { s with system := { s.system with
      runner := s.system.runner.stop
      main := .joining } }
  | join : s.system.main = .joining → s.system.poller = .exited →
    SmallSteps p rpi config s .join { s with system := { s.system with main := .finished } }

/-- What `SmallSteps` allows, the machine of small steps does. -/
theorem SmallSteps.step_eq {s s' : Threads} {a : SmallAction} (h : SmallSteps p rpi config s a s') :
    (Threads.machine p rpi config).step a s = some (.ok s') := by
  change Threads.step p rpi config a s = some (.ok s')
  cases h with
  | readFirst word hpc =>
    simp only [Threads.step, Threads.shared, (Steps.readFirst word hpc).step_eq]
    rfl
  | testRunning last hpc =>
    simp only [Threads.step, Threads.shared, (Steps.testRunning last hpc).step_eq]
    rfl
  | skip word last hpc hidle hsame =>
    simp only [Threads.step, hpc, hidle]
    rw [if_neg (not_not_intro hsame), Threads.shared, (Steps.skip word last hpc hsame).step_eq, ← hidle]
    rfl
  | callProcess word last hpc hidle hne =>
    simp only [Threads.step, hpc, hidle]
    rw [if_pos hne]
  | lockProcess word hpc hfree => simp only [Threads.step, hpc, hfree]
  | processChannel word i changesDetected changesDetected' d hpc hi hrun =>
    simp only [Threads.step, hpc, hrun]
    rw [if_pos hi]
    rfl
  | unlockProcess word i changesDetected hpc hi =>
    simp only [Threads.step, hpc]
    rw [if_neg (Nat.not_lt_of_le hi)]
  | wake elapsed hmain hprocess hgap =>
    simp only [Threads.step, Threads.shared, (Steps.wake elapsed hmain hprocess hgap).step_eq]
    rfl
  | clearLocal call hpc hnext => simp only [Threads.step, hpc, hnext]
  | lockGetResult hpc hfree => simp only [Threads.step, hpc, hfree]
  | copyChannel i count hpc hcount =>
    simp only [Threads.step, hpc, copyChannel_eq hcount]
    rw [if_pos (List.getElem?_eq_some_iff.mp hcount).1]
    rfl
  | unlockGetResult i opened hpc hi =>
    simp only [Threads.step, hpc]
    rw [if_neg (Nat.not_lt_of_le hi)]
  | display opened seen call text hpc hnext htext =>
    simp only [Threads.step, hpc, hnext, htext]
    rfl
  | stop hmain =>
    simp only [Threads.step, Threads.shared, (Steps.stop hmain).step_eq]
    rfl
  | join hmain hexited =>
    simp only [Threads.step, Threads.shared, (Steps.join hmain hexited).step_eq]
    rfl

section SmallSteps

variable {s s' : Threads} {t : System}

/-- **One small step** in a state that follows a state of the other machine: it does not fail, and it is
one of `SmallSteps`. -/
theorem small_step_spec (hn : cc.totalChannels ≠ 0) (hrange : cc.InRange)
    (h : Threads.Follows p rpi config cc s t) {a : SmallAction} {r : Except Fault Threads}
    (hs : Threads.step p rpi config a s = some r) :
    ∃ s', r = .ok s' ∧ SmallSteps p rpi config s a s' := by
  have hprocess := h.process
  have hcall := h.call
  cases a with
  | readFirst word =>
    simp only [Threads.step, Threads.shared, step] at hs
    split at hs
    · next hpc =>
      injection hs with hs
      exact ⟨_, hs.symm, .readFirst word hpc⟩
    · cases hs
  | testRunning =>
    simp only [Threads.step, Threads.shared, step] at hs
    split at hs
    · next last hpc =>
      injection hs with hs
      exact ⟨_, hs.symm, .testRunning last hpc⟩
    · cases hs
  | readNext word =>
    simp only [Threads.step] at hs
    split at hs
    · next last hpc hidle =>
      split at hs
      · next hne =>
        injection hs with hs
        exact ⟨_, hs.symm, .callProcess word last hpc hidle hne⟩
      · next hsame =>
        have hsame := not_not.mp hsame
        simp only [Threads.shared, step, hpc] at hs
        rw [PollAndAccumulateRunner.pollOnce_of_eq hsame, if_neg (not_not_intro hsame)] at hs
        injection hs with hs
        exact ⟨_, hs.symm, .skip word last hpc hidle hsame⟩
    · cases hs
  | lockProcess =>
    simp only [Threads.step] at hs
    split at hs
    · next word hpc hfree =>
      injection hs with hs
      exact ⟨_, hs.symm, .lockProcess word hpc hfree⟩
    · cases hs
  | processChannel =>
    simp only [Threads.step] at hs
    split at hs
    · next word i changesDetected hpc =>
      rw [hpc] at hprocess
      obtain ⟨-, -, hcc, hpart⟩ := hprocess
      split at hs
      · next hi =>
        have hlen : i < s.system.decoder.m_configured_channels.gpios.length := by
          rw [ConfiguredChannels.length_gpios]
          exact hi
        obtain ⟨d, hrun, -, -, -⟩ :=
          processChannel_partway (by rw [hcc]; exact hrange) (List.getElem?_eq_getElem hlen) hpart
            changesDetected
        rw [hrun] at hs
        injection hs with hs
        exact ⟨_, hs.symm, .processChannel word i changesDetected _ d hpc hi hrun⟩
      · cases hs
    · cases hs
  | unlockProcess =>
    simp only [Threads.step] at hs
    split at hs
    · next word i changesDetected hpc =>
      split at hs
      · cases hs
      · next hi =>
        injection hs with hs
        exact ⟨_, hs.symm, .unlockProcess word i changesDetected hpc (Nat.le_of_not_lt hi)⟩
    · cases hs
  | wake elapsed =>
    simp only [Threads.step, Threads.shared, step] at hs
    split at hs
    · next hcan =>
      injection hs with hs
      exact ⟨_, hs.symm, .wake elapsed hcan.1 hcan.2.1 hcan.2.2⟩
    · cases hs
  | clearLocal =>
    simp only [Threads.step] at hs
    split at hs
    · next call hpc hnext =>
      injection hs with hs
      exact ⟨_, hs.symm, .clearLocal call hpc hnext⟩
    · cases hs
  | lockGetResult =>
    simp only [Threads.step] at hs
    split at hs
    · next hpc hfree =>
      injection hs with hs
      exact ⟨_, hs.symm, .lockGetResult hpc hfree⟩
    · cases hs
  | copyChannel =>
    simp only [Threads.step] at hs
    split at hs
    · next i hpc =>
      split at hs
      · next hi =>
        rw [copyChannel_eq (List.getElem?_eq_getElem hi)] at hs
        injection hs with hs
        exact ⟨_, hs.symm, .copyChannel i _ hpc (List.getElem?_eq_getElem hi)⟩
      · cases hs
    · cases hs
  | unlockGetResult opened =>
    simp only [Threads.step] at hs
    split at hs
    · next i hpc =>
      split at hs
      · cases hs
      · next hi =>
        injection hs with hs
        exact ⟨_, hs.symm, .unlockGetResult i opened hpc (Nat.le_of_not_lt hi)⟩
    · cases hs
  | display =>
    simp only [Threads.step] at hs
    split at hs
    · next opened seen call hpc hnext =>
      rw [hpc] at hcall
      obtain ⟨-, -, -, hcopied⟩ := hcall
      have hresult : (call s.system.decoder.m_gpioPinAccumulationLocal).result ≠ [] := by
        rw [System.result_nextReport hnext, hcopied]
        exact countsAfter_ne_nil hn _
      obtain ⟨text, htext⟩ := Report.text_eq_ok (display config) p opened _ hresult
      rw [htext] at hs
      injection hs with hs
      exact ⟨_, hs.symm, .display opened seen call text hpc hnext htext⟩
    · cases hs
  | stop =>
    simp only [Threads.step, Threads.shared, step] at hs
    split at hs
    · next hmain =>
      injection hs with hs
      exact ⟨_, hs.symm, .stop hmain⟩
    · cases hs
  | join =>
    simp only [Threads.step, Threads.shared, step] at hs
    split at hs
    · next hcan =>
      injection hs with hs
      exact ⟨_, hs.symm, .join hcan.1 hcan.2⟩
    · cases hs

/-! ## Small steps are followed -/

namespace Threads.Follows

/-- A step that both machines take. -/
theorem step (hrange : cc.InRange) (h : Follows p rpi config cc s t) {a : Action} {t' : System}
    (hs : Steps p rpi config t a t') (h' : Inv p rpi config cc t' → Follows p rpi config cc s' t') :
    ∃ t', (PulseCounterMain.machine p rpi config).Reachable t t' ∧ Follows p rpi config cc s' t' :=
  ⟨t', .of_step hs.step_eq, h' (h.inv.steps hrange hs)⟩

/-- The polling thread has released the mutex: the word counts as processed. -/
theorem unlocksProcess (hrange : cc.InRange) (h : Follows p rpi config cc s t) {word : UInt32}
    {i : Nat} {changesDetected : Bool} (hpc : s.process = .inLoop word i changesDetected)
    (hi : s.system.decoder.m_configured_channels.totalChannels ≤ i) :
    ∃ t', (PulseCounterMain.machine p rpi config).Reachable t t' ∧ Follows p rpi config cc { s with
      system := { s.system with
        poller := .testing (s.system.masked word)
        reads := s.system.reads ++ [word]
        shown := s.system.shown ++ [s.system.masked word] }
      m_accumulate_mutex := none
      process := .returned } t' := by
  have hprocess := h.process
  rw [hpc] at hprocess
  obtain ⟨hown, ⟨last, hreading, hne⟩, hcc, hpart⟩ := hprocess
  have hsaw : Saw cc (s.system.shown ++ [s.system.masked word]) s.system.decoder :=
    .concat hcc (hpart.tallies hi)
  rw [← h.masked] at hne
  obtain ⟨d, hrun, -, -⟩ := h.inv.saw.process hrange (t.masked word)
  refine h.step hrange (.process word last d _ (h.poller.trans hreading) hne hrun) fun hinv => ?_
  refine h.of_polled (r := { t.runner with m_decodeAndAccummulate := d }) rfl rfl rfl
    ?_ ?_ hinv ⟨by simp, hsaw⟩ ?_
  · rw [← h.masked, ← h.reads, ← h.shown]
    rfl
  · rw [h.runner]
    rfl
  · refine h.call.frame ?_ rfl rfl (fun _ => rfl) (List.prefix_append _ _)
    rw [hown]
    simp

/-- The main thread has released the mutex: the report counts as made. -/
theorem unlocksGetResult (hn : cc.totalChannels ≠ 0) (hrange : cc.InRange)
    (h : Follows p rpi config cc s t) {i : Nat} (opened : Bool) (hpc : s.call = .copying i)
    (hi : s.system.decoder.m_gpioPinAccumulation.length ≤ i) :
    ∃ t', (PulseCounterMain.machine p rpi config).Reachable t t' ∧ Follows p rpi config cc { s with
      m_accumulate_mutex := none
      call := .displaying opened s.system.shown.length } t' := by
  have hcall := h.call
  rw [hpc] at hcall
  obtain ⟨hown, hsome, hcopied⟩ := hcall
  obtain ⟨call, hnext⟩ := Option.isSome_iff_exists.mp hsome
  have hsaw := h.process.saw (by rw [hown]; simp)
  have ht := h.system_eq (settled_of_call fun opened seen => by rw [hpc]; simp)
  -- the local vector is a copy of the counts, and so are the counts of the other side
  rw [List.take_of_length_le hi, hsaw.accumulation] at hcopied
  have hcounts : t.counts = countsAfter cc s.system.shown := by
    rw [← h.shown]
    exact h.inv.saw.accumulation
  have hnext' : t.nextReport = some call := by
    rw [ht]
    exact hnext
  have hresult : (call t.counts).result ≠ [] := by
    rw [System.result_nextReport hnext', hcounts]
    exact countsAfter_ne_nil hn _
  obtain ⟨text, htext⟩ := Report.text_eq_ok (display config) p opened (call t.counts) hresult
  obtain ⟨a, hsteps⟩ := System.report_steps hnext' htext
  refine h.step hrange hsteps fun hinv => ⟨hinv, ?_, ?_, ?_⟩
  · rw [hcounts.trans hcopied.symm] at htext ⊢
    have hsettled := settled_displaying (s := { s with
      m_accumulate_mutex := none
      call := .displaying opened s.system.shown.length }) rfl hnext htext
    refine System.eq_withDecoder (d := { t.decoder with m_gpioPinAccumulationLocal := t.counts }) ?_
    rw [hsettled, ← System.afterReport_withDecoder]
    have hreported := congrArg (fun u : System => u.reported opened
      (call s.system.decoder.m_gpioPinAccumulationLocal) text) ht
    exact congrArg System.afterReport hreported
  · refine h.process.frame ?_ rfl rfl rfl rfl
    rw [hown]
    simp
  · refine ⟨by simp, hsome, Nat.le_refl _, ?_⟩
    rw [List.take_length]
    exact hcopied

/-- A step of the main thread outside a call for a report, on both sides. -/
theorem ofMain (hrange : cc.InRange) (h : Follows p rpi config cc s t)
    (hnext : s.system.nextReport = none) (f : System → System)
    (hf : ∀ (u : System) (d : DecodeGpioRegsAndAccumulate),
      f (u.withDecoder d) = (f u).withDecoder d ∧ (f u).poller = u.poller ∧ (f u).shown = u.shown ∧
        (f u).runner.m_gpio_channel_mask = u.runner.m_gpio_channel_mask ∧
        (f u).decoder = u.decoder)
    {a : Action} (hs : Steps p rpi config (s.system.withDecoder t.decoder) a
      (f (s.system.withDecoder t.decoder))) :
    ∃ t', (PulseCounterMain.machine p rpi config).Reachable t t' ∧
      Follows p rpi config cc { s with system := f s.system } t' := by
  obtain ⟨hcommutes, hpoller, hshown, hmask, hdecoder⟩ := hf s.system t.decoder
  rw [← h.system_eq (settled_of_nextReport hnext)] at hs
  refine h.step hrange hs fun hinv => ?_
  rw [h.system_eq (settled_of_nextReport hnext), hcommutes] at hinv ⊢
  exact h.of_main (h.returned hnext) hpoller hshown hmask hdecoder hinv

/-- **The relation** survives every small step. -/
theorem steps (hn : cc.totalChannels ≠ 0) (hrange : cc.InRange) (h : Follows p rpi config cc s t)
    {a : SmallAction} (hs : SmallSteps p rpi config s a s') :
    ∃ t', (PulseCounterMain.machine p rpi config).Reachable t t' ∧ Follows p rpi config cc s' t' := by
  have hprocess := h.process
  have hcall := h.call
  cases hs with
  | readFirst word hpc =>
    refine h.step hrange (.readFirst word (h.poller.trans hpc)) fun hinv => ?_
    refine h.of_idle (h.idle fun last hreading => ?_) ?_ hinv
    · rw [hpc] at hreading
      cases hreading
    · rw [← h.masked, ← h.reads]
      rfl
  | testRunning last hpc =>
    have hkeep : t.runner.m_keepThreadRunning = s.system.runner.m_keepThreadRunning := by
      rw [h.runner]
    refine h.step hrange (.testRunning last (h.poller.trans hpc)) fun hinv => ?_
    refine h.of_idle (h.idle fun last' hreading => ?_) ?_ hinv
    · rw [hpc] at hreading
      cases hreading
    · rw [← hkeep, ← h.reads]
      rfl
  | skip word last hpc hidle hsame =>
    refine h.step hrange (.skip word last (h.poller.trans hpc) ((h.masked word).trans hsame))
      fun hinv => h.of_idle hidle ?_ hinv
    rw [← h.reads]
    rfl
  | callProcess word last hpc hidle hne =>
    -- nothing has happened yet on the other side
    rw [hidle] at hprocess
    obtain ⟨hfree, hsaw⟩ := hprocess
    exact ⟨t, .refl _ t, h.inv, h.system, ⟨hfree, hsaw, last, hpc, hne⟩, h.call⟩
  | lockProcess word hpc hfree =>
    rw [hpc] at hprocess
    obtain ⟨-, hsaw, hword⟩ := hprocess
    refine ⟨t, .refl _ t, h.inv, h.system, ?_, ?_⟩
    · exact ⟨rfl, hword, hsaw.channels, hsaw.tallies.partway _⟩
    · refine h.call.frame ?_ rfl rfl (fun _ => rfl) (List.prefix_refl _)
      rw [hfree]
      simp
  | processChannel word i changesDetected changesDetected' d hpc hi hrun =>
    rw [hpc] at hprocess
    obtain ⟨hown, hword, hcc, hpart⟩ := hprocess
    have hlen : i < s.system.decoder.m_configured_channels.gpios.length := by
      rw [ConfiguredChannels.length_gpios]
      exact hi
    obtain ⟨d', hrun', hcc', hlocal, hpart'⟩ :=
      processChannel_partway (by rw [hcc]; exact hrange) (List.getElem?_eq_getElem hlen) hpart
        changesDetected
    rw [hrun] at hrun'
    injection hrun' with hd
    injection hd with hd _
    subst hd
    refine ⟨t, .refl _ t, h.of_polled (r := t.runner) rfl rfl hlocal ?_ h.runner h.inv
      ⟨hown, hword, hcc'.trans hcc, hpart'⟩ ?_⟩
    · rw [← h.reads, ← h.shown, ← h.poller]
      rfl
    · refine h.call.frame Iff.rfl rfl hlocal (fun howner => ?_) (List.prefix_refl _)
      rw [hown] at howner
      cases howner
  | unlockProcess word i changesDetected hpc hi => exact h.unlocksProcess hrange hpc hi
  | wake elapsed hmain hloop hgap =>
    have hnext : s.system.nextReport = none := by
      unfold System.nextReport
      simp only [hmain, hloop, if_true]
    exact h.ofMain hrange hnext (fun u => u.woken config (rpi.millis elapsed) elapsed)
      (fun _ _ => ⟨rfl, rfl, rfl, rfl, rfl⟩) (.wake elapsed hmain hloop hgap)
  | clearLocal call hpc hnext =>
    rw [hpc] at hcall
    have ht := h.system_eq (settled_of_call fun opened seen => by rw [hpc]; simp)
    refine ⟨t, .refl _ t, h.inv, ht, ?_, hcall, ?_, rfl⟩
    · exact h.process.frame Iff.rfl rfl rfl rfl rfl
    · change (System.nextReport s.system).isSome = true
      rw [hnext]
      rfl
  | lockGetResult hpc hfree =>
    rw [hpc] at hcall
    obtain ⟨-, hsome, hempty⟩ := hcall
    have ht := h.system_eq (settled_of_call fun opened seen => by rw [hpc]; simp)
    refine ⟨t, .refl _ t, h.inv, ht, ?_, rfl, hsome, hempty⟩
    refine h.process.frame ?_ rfl rfl rfl rfl
    rw [hfree]
    simp
  | copyChannel i count hpc hcount =>
    rw [hpc] at hcall
    obtain ⟨hown, hsome, hcopied⟩ := hcall
    have ht := h.system_eq (settled_of_call fun opened seen => by rw [hpc]; simp)
    refine ⟨t, .refl _ t, h.inv, ht, ?_, hown, hsome, ?_⟩
    · exact h.process.frame Iff.rfl rfl rfl rfl rfl
    · change s.system.decoder.m_gpioPinAccumulationLocal ++ _ =
        s.system.decoder.m_gpioPinAccumulation.take _
      rw [hcopied, List.take_add_one, hcount]
      rfl
  | unlockGetResult i opened hpc hi => exact h.unlocksGetResult hn hrange opened hpc hi
  | display opened seen call text hpc hnext htext =>
    rw [hpc] at hcall
    have hsystem := h.system
    rw [settled_displaying hpc hnext htext] at hsystem
    refine ⟨t, .refl _ t, h.inv, hsystem, ?_, hcall.1⟩
    refine h.process.frame Iff.rfl ?_ ?_ ?_ (v := s.system.decoder.m_gpioPinAccumulationLocal) ?_
    all_goals
      rw [System.afterReport_eq]
      rfl
  | stop hmain =>
    have hnext : s.system.nextReport = none := by
      unfold System.nextReport
      simp only [hmain]
    exact h.ofMain hrange hnext (fun u => { u with runner := u.runner.stop, main := .joining })
      (fun _ _ => ⟨rfl, rfl, rfl, rfl, rfl⟩) (.stop hmain)
  | join hmain hexited =>
    have hnext : s.system.nextReport = none := by
      unfold System.nextReport
      simp only [hmain]
    exact h.ofMain hrange hnext (fun u => { u with main := .finished })
      (fun _ _ => ⟨rfl, rfl, rfl, rfl, rfl⟩) (.join hmain hexited)

end Threads.Follows

/-- **The machine of small steps** refines the one that takes calls as one step. -/
theorem Threads.simulates (p : Platform) (rpi : RPiInterface) (config : PulseCounterConfiguration)
    (hn : cc.totalChannels ≠ 0) (hrange : cc.InRange) :
    (Threads.machine p rpi config).Simulates (PulseCounterMain.machine p rpi config)
      (Follows p rpi config cc) := by
  intro s t a r h hs
  obtain ⟨s', hs', hsteps⟩ := small_step_spec hn hrange h hs
  exact ⟨s', hs', h.steps hn hrange hsteps⟩

end SmallSteps

end PulseCounter.PulseCounterMain
