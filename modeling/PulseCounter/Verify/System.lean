import PulseCounter.Lib.Refinement
import PulseCounter.Verify.StartUp
import PulseCounter.Verify.PollLoop

/-!
# The two threads of a run

`Steps` says once what a step of the running system can do. No step of a run fails (`step_spec`),
and in every reachable state (`Inv`) the decoder has seen the words it was shown, the main thread's
clock readings are those of the true elapsed time, and every report is of the counts after a prefix of
the words shown (`Faithful`). The words shown are what the polling loop passes on of the words read, so
the polling thread of the system is the polling loop of `PollAndAccumulateRunner` (`Inv.counts_eq`).
-/

namespace PulseCounter

namespace DisplayData

theorem findMinMax_eq_ok {a : List UInt32} (h : a ≠ []) : ∃ m, findMinMax a = .ok m := by
  obtain ⟨x, l, rfl⟩ := List.exists_cons_of_ne_nil h
  exact ⟨_, rfl⟩

theorem statics_eq_ok (p : Platform) {a : List UInt32} (h : a ≠ []) (duration : UInt32) :
    ∃ st, statics p a duration = .ok st := by
  obtain ⟨m, hm⟩ := findMinMax_eq_ok h
  unfold statics
  rw [hm]
  exact ⟨_, rfl⟩

theorem summary_eq_ok (d : DisplayData) (p : Platform) {a : List UInt32} (h : a ≠ [])
    (duration : UInt32) (stream : Stream) : ∃ text, d.summary p a duration stream = .ok text := by
  obtain ⟨st, hst⟩ := statics_eq_ok p h duration
  unfold summary
  rw [hst]
  split
  · exact ⟨_, rfl⟩
  · exact ⟨_, rfl⟩

end DisplayData

theorem dumpDataToFile_eq_ok (d : DisplayData) (p : Platform) {a : List UInt32} (h : a ≠ [])
    (duration : UInt32) : ∃ text, dumpDataToFile d p a duration = .ok text := by
  obtain ⟨text, htext⟩ := d.summary_eq_ok p h duration .file
  unfold dumpDataToFile
  rw [htext]
  exact ⟨_, rfl⟩

namespace PulseCounterMain

open DecodeGpioRegsAndAccumulate

/-- A call on a nonempty vector of counts writes its text without a fault. -/
theorem Report.text_eq_ok (d : DisplayData) (p : Platform) (opened : Bool) (report : Report)
    (h : report.result ≠ []) : ∃ text, report.text d p opened = .ok text := by
  cases report with
  | channels result => exact ⟨_, rfl⟩
  | dumpDataToFile result duration =>
    cases opened with
    | true => exact dumpDataToFile_eq_ok d p h duration
    | false => exact ⟨_, rfl⟩
  | summary result duration => exact d.summary_eq_ok p h duration .stdout

/-- Only the call that opens the status file asks whether it could be opened. -/
theorem Report.text_opens (d : DisplayData) (p : Platform) (opened : Bool) (report : Report) :
    report.text d p (report.opens opened) = report.text d p opened := by
  cases report <;> rfl

/-! ## What a step does -/

namespace System

/-- The system after a call for a report that wrote `text`. -/
def reported (s : System) (opened : Bool) (report : Report) (text : List Char) : System :=
  { s with
    runner := { s.runner with
      m_decodeAndAccummulate := { s.runner.m_decodeAndAccummulate with
        m_gpioPinAccumulationLocal := s.counts } }
    emitted := s.emitted ++ [{
      report := report
      text := text
      opened := report.opens opened
      point := s.point
      elapsed := s.elapsed
      seen := s.shown.length }] }

/-- The system after the polling thread read a word and the decoder was shown it. -/
def decoded (s : System) (d : DecodeGpioRegsAndAccumulate) (word : UInt32) : System :=
  { s with
    runner := { s.runner with m_decodeAndAccummulate := d }
    poller := .testing (s.masked word)
    reads := s.reads ++ [word]
    shown := s.shown ++ [s.masked word] }

/-- The system after the main thread read the clock. -/
def woken (config : PulseCounterConfiguration) (s : System) (now : UInt32) (elapsed : Nat) : System :=
  { s with
    loop := s.loop.wake config now
    elapsed := elapsed
    main := if (s.loop.wake config now).displayDue then .reporting else .looping }

theorem emit_eq (d : DisplayData) (p : Platform) (opened : Bool) (call : List UInt32 → Report)
    (s : System) :
    s.emit d p opened call =
      ((call s.counts).text d p opened).map fun text => s.reported opened (call s.counts) text := by
  unfold emit PollAndAccumulateRunner.getResult System.counts
  rw [getResult_eq]
  simp only [bind, Except.bind, pure, Except.pure]
  cases (call s.runner.m_decodeAndAccummulate.m_gpioPinAccumulation).text d p opened <;> rfl

end System

variable {p : Platform} {rpi : RPiInterface} {config : PulseCounterConfiguration}

/-- The steps of the running system. -/
inductive Steps (p : Platform) (rpi : RPiInterface) (config : PulseCounterConfiguration)
    (s : System) : Action → System → Prop
  | readFirst (word : UInt32) : s.poller = .starting →
    Steps p rpi config s (.readFirst word) { s with
      poller := .testing (s.masked word)
      reads := s.reads ++ [word] }
  | testRunning (last : UInt32) : s.poller = .testing last →
    Steps p rpi config s .testRunning { s with
      poller := if s.runner.m_keepThreadRunning then .reading last else .exited }
  | skip (word last : UInt32) : s.poller = .reading last → s.masked word = last →
    Steps p rpi config s (.readNext word) { s with
      poller := .testing last
      reads := s.reads ++ [word] }
  | process (word last : UInt32) (d : DecodeGpioRegsAndAccumulate) (changesDetected : Bool) :
    s.poller = .reading last → s.masked word ≠ last →
    s.runner.m_decodeAndAccummulate.process (s.masked word) = .ok (d, changesDetected) →
    Steps p rpi config s (.readNext word) (s.decoded d word)
  | wake (elapsed : Nat) : s.main = .looping → s.loop.process → s.elapsed + 1000 ≤ elapsed →
    Steps p rpi config s (.wake elapsed) (s.woken config (rpi.millis elapsed) elapsed)
  | channels (text : List Char) : s.main = .reporting →
    (Report.channels s.counts).text (display config) p true = .ok text →
    Steps p rpi config s .channels { s.reported true (.channels s.counts) text with main := .dumping }
  | dumpDataToFile (opened : Bool) (text : List Char) : s.main = .dumping →
    (Report.dumpDataToFile s.counts s.loop.duration).text (display config) p opened = .ok text →
    Steps p rpi config s (.dumpDataToFile opened)
      { s.reported opened (.dumpDataToFile s.counts s.loop.duration) text with
        loop := s.loop.displayed
        main := .looping
        point := s.point + 1 }
  | lastChannels (text : List Char) : s.main = .looping → s.loop.process = false →
    (Report.channels s.counts).text (display config) p true = .ok text →
    Steps p rpi config s .channels { s.reported true (.channels s.counts) text with main := .summing }
  | summary (text : List Char) : s.main = .summing →
    (Report.summary s.counts s.loop.duration).text (display config) p true = .ok text →
    Steps p rpi config s .summary
      { s.reported true (.summary s.counts s.loop.duration) text with main := .stopping }
  | stop : s.main = .stopping →
    Steps p rpi config s .stop { s with runner := s.runner.stop, main := .joining }
  | join : s.main = .joining → s.poller = .exited →
    Steps p rpi config s .join { s with main := .finished }

/-- **One step** in a state whose decoder has seen its words: it does not fail, and it is one of
`Steps`. -/
theorem step_spec {cc : ConfiguredChannels} (hn : cc.totalChannels ≠ 0) (hrange : cc.InRange)
    {s : System} (hsaw : Saw cc s.shown s.runner.m_decodeAndAccummulate) {a : Action}
    {r : Except Fault System} (hs : step p rpi config a s = some r) :
    ∃ t, r = .ok t ∧ Steps p rpi config s a t := by
  have hcounts : s.counts ≠ [] := by
    intro hnil
    have hlen := length_countsAfter cc s.shown
    rw [← hsaw.accumulation] at hlen
    change s.counts.length = _ at hlen
    rw [hnil] at hlen
    exact hn hlen.symm
  cases a with
  | readFirst word =>
    simp only [step] at hs
    split at hs
    · next hpc =>
      injection hs with hs
      exact ⟨_, hs.symm, .readFirst word hpc⟩
    · cases hs
  | testRunning =>
    simp only [step] at hs
    split at hs
    · next last hpc =>
      injection hs with hs
      exact ⟨_, hs.symm, .testRunning last hpc⟩
    · cases hs
  | readNext word =>
    simp only [step] at hs
    split at hs
    · next last hpc =>
      injection hs with hs
      by_cases hsame : s.masked word = last
      · rw [PollAndAccumulateRunner.pollOnce_of_eq hsame, if_neg (not_not_intro hsame)] at hs
        exact ⟨_, hs.symm, .skip word last hpc hsame⟩
      · obtain ⟨d, hrun, -, -⟩ := hsaw.process hrange (s.masked word)
        rw [PollAndAccumulateRunner.pollOnce_of_ne hsame, if_pos hsame] at hs
        change Except.bind (Except.map _ (s.runner.m_decodeAndAccummulate.process (s.masked word))) _
          = r at hs
        rw [hrun] at hs
        exact ⟨_, hs.symm, .process word last d _ hpc hsame hrun⟩
    · cases hs
  | wake elapsed =>
    simp only [step] at hs
    split at hs
    · next h =>
      injection hs with hs
      exact ⟨_, hs.symm, .wake elapsed h.1 h.2.1 h.2.2⟩
    · cases hs
  | channels =>
    obtain ⟨text, htext⟩ := Report.text_eq_ok (display config) p true
      (.channels s.counts) hcounts
    simp only [step, System.emit_eq, htext] at hs
    split at hs
    · next hpc =>
      injection hs with hs
      exact ⟨_, hs.symm, .channels text hpc htext⟩
    · next hpc =>
      split at hs
      · cases hs
      · next hprocess =>
        injection hs with hs
        exact ⟨_, hs.symm, .lastChannels text hpc (Bool.eq_false_iff.mpr hprocess) htext⟩
    · cases hs
  | dumpDataToFile opened =>
    obtain ⟨text, htext⟩ := Report.text_eq_ok (display config) p opened
      (.dumpDataToFile s.counts s.loop.duration) hcounts
    simp only [step, System.emit_eq, htext] at hs
    split at hs
    · next hpc =>
      injection hs with hs
      exact ⟨_, hs.symm, .dumpDataToFile opened text hpc htext⟩
    · cases hs
  | summary =>
    obtain ⟨text, htext⟩ := Report.text_eq_ok (display config) p true
      (.summary s.counts s.loop.duration) hcounts
    simp only [step, System.emit_eq, htext] at hs
    split at hs
    · next hpc =>
      injection hs with hs
      exact ⟨_, hs.symm, .summary text hpc htext⟩
    · cases hs
  | stop =>
    simp only [step] at hs
    split at hs
    · next hpc =>
      injection hs with hs
      exact ⟨_, hs.symm, .stop hpc⟩
    · cases hs
  | join =>
    simp only [step] at hs
    split at hs
    · next h =>
      injection hs with hs
      exact ⟨_, hs.symm, .join h.1 h.2⟩
    · cases hs

/-! ## What holds in every state -/

/-- A report is of the counts after a prefix of the words shown. The duration it was given is the
difference of the clock readings at the start and at its true elapsed time, and it wrote what the
display writes for it. -/
structure Faithful (p : Platform) (rpi : RPiInterface) (config : PulseCounterConfiguration)
    (cc : ConfiguredChannels) (shown : List UInt32) (e : Emission) : Prop where
  seen : e.seen ≤ shown.length
  result : e.report.result = countsAfter cc (shown.take e.seen)
  duration : ∀ x, e.report.duration? = some x → x = rpi.millis e.elapsed - rpi.millis 0
  elapsed : 1000 ≤ e.elapsed
  text : e.report.text (display config) p e.opened = .ok e.text

/-- The words shown are those that the loop of `run` passes on of the words read. -/
def System.Passed (s : System) (first : UInt32) (words : List UInt32) : Prop :=
  s.reads = first :: words ∧ s.shown = changedWords s.runner.m_gpio_channel_mask first words

/-- The words read and shown, by where the polling thread stands. -/
def System.PolledAt (s : System) : PollPc → Prop
  | .starting => s.reads = [] ∧ s.shown = []
  | .testing last | .reading last =>
    ∃ first words, s.Passed first words ∧ last = s.masked (words.getLastD first)
  | .exited => ∃ first words, s.Passed first words

structure Inv (p : Platform) (rpi : RPiInterface) (config : PulseCounterConfiguration)
    (cc : ConfiguredChannels) (s : System) : Prop where
  mask : cc.getChannelsMask = .ok s.runner.m_gpio_channel_mask
  saw : Saw cc s.shown s.runner.m_decodeAndAccummulate
  polled : s.PolledAt s.poller
  started : s.loop.start = rpi.millis 0
  read : s.loop.current = rpi.millis s.elapsed
  woken : s.main = .looping ∧ s.loop.process = true ∨ 1000 ≤ s.elapsed
  header : s.header = (display config).header .stdout
  emitted : ∀ e ∈ s.emitted, Faithful p rpi config cc s.shown e

section Invariant

variable {cc : ConfiguredChannels} {s t : System}

theorem Faithful.append {shown : List UInt32} {e : Emission}
    (h : Faithful p rpi config cc shown e) (v : UInt32) :
    Faithful p rpi config cc (shown ++ [v]) e := by
  refine ⟨?_, ?_, h.duration, h.elapsed, h.text⟩
  · rw [List.length_append]
    exact Nat.le_add_right_of_le h.seen
  · rw [h.result, List.take_append_of_le_length h.seen]

theorem Faithful.result_ne_nil {shown : List UInt32} {e : Emission}
    (h : Faithful p rpi config cc shown e) (hn : cc.totalChannels ≠ 0) : e.report.result ≠ [] := by
  intro hnil
  have hlen := length_countsAfter cc (shown.take e.seen)
  rw [← h.result, hnil] at hlen
  exact hn hlen.symm

/-- A call for a report of the current counts, once the main thread has woken. -/
theorem Inv.reported (h : Inv p rpi config cc s) (hwoken : 1000 ≤ s.elapsed) (report : Report)
    (hresult : report.result = s.counts)
    (hduration : ∀ x, report.duration? = some x → x = s.loop.duration) {opened : Bool}
    {text : List Char} (htext : report.text (display config) p opened = .ok text) :
    Inv p rpi config cc (s.reported opened report text) := by
  refine ⟨h.mask, h.saw.of_local _, h.polled, h.started, h.read, Or.inr hwoken, h.header,
    fun e he => ?_⟩
  rcases List.mem_append.mp he with he | he
  · exact h.emitted e he
  · obtain rfl := List.mem_singleton.mp he
    refine ⟨Nat.le_refl _, ?_, fun x hx => ?_, hwoken, (report.text_opens _ p opened).trans htext⟩
    · change report.result = countsAfter cc (s.shown.take s.shown.length)
      rw [List.take_length, hresult]
      exact h.saw.accumulation
    · rw [hduration x hx]
      unfold LoopState.duration
      rw [h.read, h.started]

/-- Where the main thread stands does not matter once it has woken. -/
theorem Inv.moved (h : Inv p rpi config cc s) (hwoken : 1000 ≤ s.elapsed) (main : MainPc) :
    Inv p rpi config cc { s with main := main } :=
  ⟨h.mask, h.saw, h.polled, h.started, h.read, Or.inr hwoken, h.header, h.emitted⟩

/-- **The invariant** survives every step. -/
theorem Inv.steps (hrange : cc.InRange) (h : Inv p rpi config cc s) {a : Action}
    (hs : Steps p rpi config s a t) : Inv p rpi config cc t := by
  have hlater : s.main ≠ .looping ∨ s.loop.process = false → 1000 ≤ s.elapsed := by
    intro hmain
    rcases h.woken with ⟨hloop, hprocess⟩ | hwoken
    · rcases hmain with hmain | hmain
      · exact absurd hloop hmain
      · rw [hmain] at hprocess
        cases hprocess
    · exact hwoken
  have hpolled := h.polled
  cases hs with
  | readFirst word hpc =>
    rw [hpc] at hpolled
    obtain ⟨hreads, hshown⟩ := hpolled
    refine ⟨h.mask, h.saw, ⟨word, [], ⟨?_, hshown⟩, rfl⟩, h.started, h.read, h.woken, h.header,
      h.emitted⟩
    change s.reads ++ [word] = [word]
    rw [hreads, List.nil_append]
  | testRunning last hpc =>
    rw [hpc] at hpolled
    refine ⟨h.mask, h.saw, ?_, h.started, h.read, h.woken, h.header, h.emitted⟩
    change System.PolledAt _ (if s.runner.m_keepThreadRunning = true then _ else _)
    obtain ⟨first, words, hpassed, hlast⟩ := hpolled
    split
    · exact ⟨first, words, hpassed, hlast⟩
    · exact ⟨first, words, hpassed⟩
  | skip word last hpc hsame =>
    rw [hpc] at hpolled
    obtain ⟨first, words, ⟨hreads, hshown⟩, hlast⟩ := hpolled
    refine ⟨h.mask, h.saw, ⟨first, words ++ [word], ⟨?_, ?_⟩, ?_⟩, h.started, h.read, h.woken, h.header,
      h.emitted⟩
    · change s.reads ++ [word] = _
      rw [hreads, List.cons_append]
    · exact hshown.trans (changedWords_concat_of_eq (hsame.trans hlast)).symm
    · rw [List.getLastD_concat]
      exact hsame.symm
  | process word last d changesDetected hpc hne hrun =>
    rw [hpc] at hpolled
    obtain ⟨first, words, ⟨hreads, hshown⟩, hlast⟩ := hpolled
    obtain ⟨d', hrun', hsaw, -⟩ := h.saw.process hrange (s.masked word)
    rw [hrun] at hrun'
    injection hrun' with hd
    injection hd with hd _
    subst hd
    refine ⟨h.mask, hsaw, ⟨first, words ++ [word], ⟨?_, ?_⟩, ?_⟩, h.started, h.read, h.woken, h.header,
      fun e he => (h.emitted e he).append _⟩
    · change s.reads ++ [word] = _
      rw [hreads, List.cons_append]
    · change s.shown ++ [s.masked word] = _
      rw [hlast] at hne
      rw [hshown]
      exact (changedWords_concat_of_ne hne).symm
    · rw [List.getLastD_concat]
      rfl
  | wake elapsed hpc hprocess hgap =>
    unfold System.woken
    rw [LoopState.wake_eq]
    exact ⟨h.mask, h.saw, h.polled, h.started, rfl, Or.inr (Nat.le_trans (Nat.le_add_left _ _) hgap),
      h.header, h.emitted⟩
  | channels text hpc htext =>
    have hwoken := hlater (Or.inl (by rw [hpc]; simp))
    have hr := h.reported hwoken (.channels s.counts) rfl (fun x hx => nomatch hx) htext
    exact hr.moved hwoken .dumping
  | dumpDataToFile opened text hpc htext =>
    have hwoken := hlater (Or.inl (by rw [hpc]; simp))
    have hr := h.reported hwoken (.dumpDataToFile s.counts s.loop.duration) rfl
      (fun x hx => (Option.some.inj hx).symm) htext
    exact ⟨hr.mask, hr.saw, hr.polled, hr.started, hr.read, Or.inr hwoken, hr.header, hr.emitted⟩
  | lastChannels text hpc hprocess htext =>
    have hwoken := hlater (Or.inr hprocess)
    have hr := h.reported hwoken (.channels s.counts) rfl (fun x hx => nomatch hx) htext
    exact hr.moved hwoken .summing
  | summary text hpc htext =>
    have hwoken := hlater (Or.inl (by rw [hpc]; simp))
    have hr := h.reported hwoken (.summary s.counts s.loop.duration) rfl
      (fun x hx => (Option.some.inj hx).symm) htext
    exact hr.moved hwoken .stopping
  | stop hpc =>
    have hwoken := hlater (Or.inl (by rw [hpc]; simp))
    exact ⟨h.mask, h.saw, h.polled, h.started, h.read, Or.inr hwoken, h.header, h.emitted⟩
  | join hpc hexited =>
    have hwoken := hlater (Or.inl (by rw [hpc]; simp))
    exact h.moved hwoken .finished

theorem System.Passed.shown_eq {first first' : UInt32} {words words' : List UInt32}
    (h : s.Passed first words) (hreads : s.reads = first' :: words') :
    s.shown = changedWords s.runner.m_gpio_channel_mask first' words' := by
  obtain ⟨hreads', hshown⟩ := h
  rw [hreads] at hreads'
  injection hreads' with hfirst hwords
  rw [hfirst, hwords]
  exact hshown

theorem Inv.shown_eq (h : Inv p rpi config cc s) {first : UInt32} {words : List UInt32}
    (hreads : s.reads = first :: words) :
    s.shown = changedWords s.runner.m_gpio_channel_mask first words := by
  have hpolled := h.polled
  cases hpc : s.poller with
  | starting =>
    rw [hpc] at hpolled
    obtain ⟨hnil, -⟩ := hpolled
    rw [hreads] at hnil
    cases hnil
  | testing last | reading last =>
    rw [hpc] at hpolled
    obtain ⟨_, _, hpassed, -⟩ := hpolled
    exact hpassed.shown_eq hreads
  | exited =>
    rw [hpc] at hpolled
    obtain ⟨_, _, hpassed⟩ := hpolled
    exact hpassed.shown_eq hreads

/-- **The polling thread is the polling loop**: in any state its counts are those of the loop run on
the words it has read so far. -/
theorem Inv.counts_eq (hn : cc.totalChannels ≠ 0) (hrange : cc.InRange)
    (h : Inv p rpi config cc s) {first : UInt32} {words : List UInt32}
    (hreads : s.reads = first :: words) :
    PollAndAccumulateRunner.pollCounts cc first words = .ok s.counts := by
  rw [pollCounts_eq hn hrange h.mask, ← h.shown_eq hreads, ← h.saw.accumulation]
  rfl

/-- Every reachable state keeps the invariant, and no action fails in it. -/
theorem Inv.reachable (hn : cc.totalChannels ≠ 0) (hrange : cc.InRange)
    (h : Inv p rpi config cc s) (hs : (machine p rpi config).Reachable s t) :
    Inv p rpi config cc t ∧ (machine p rpi config).Sound t := by
  refine hs.safe (Inv p rpi config cc) h fun a u r hu hr => ?_
  obtain ⟨v, hv, hsteps⟩ := step_spec hn hrange hu.saw hr
  exact ⟨v, hv, hu.steps hrange hsteps⟩

end Invariant

/-! ## Start-up -/

section StartUp

variable {cc : ConfiguredChannels} {s : System}

/-- A run on channels that are all bits of the register word starts. -/
theorem start_eq_ok (p : Platform) (hsetup : ¬rpi.wiringPiSetupPhys < 0)
    (hn : (cc.addChannels config.activePins).totalChannels ≠ 0)
    (hrange : (cc.addChannels config.activePins).InRange) :
    ∃ s, start rpi config cc = .ok (some s) ∧
      Inv p rpi config (cc.addChannels config.activePins) s ∧ s.main = .looping ∧
      s.emitted = [] := by
  obtain ⟨mask, hmask, -⟩ := ConfiguredChannels.getChannelsMask_eq hrange
  obtain ⟨d, hnew⟩ := new_eq_ok hn
  unfold start PollAndAccumulateRunner.new
  rw [setUp_eq hsetup]
  simp only [hmask, hnew, bind, Except.bind, pure, Except.pure]
  refine ⟨_, rfl, ⟨hmask, Saw.of_new hnew, ⟨rfl, rfl⟩, rfl, rfl, Or.inl ⟨rfl, rfl⟩, rfl, ?_⟩, rfl,
    rfl⟩
  intro e he
  cases he

/-- A run starts on no other channels. -/
theorem channels_of_start (h : start rpi config cc = .ok (some s)) :
    ¬rpi.wiringPiSetupPhys < 0 ∧ (cc.addChannels config.activePins).totalChannels ≠ 0 ∧
      (cc.addChannels config.activePins).InRange := by
  by_cases hsetup : rpi.wiringPiSetupPhys < 0
  · unfold start setUp at h
    rw [if_pos hsetup] at h
    cases h
  · unfold start at h
    rw [setUp_eq hsetup] at h
    cases hmask : (cc.addChannels config.activePins).getChannelsMask with
    | error e =>
      simp only [hmask] at h
      cases h
    | ok mask =>
      refine ⟨hsetup, fun hn => ?_, ConfiguredChannels.inRange_of_getChannelsMask hmask⟩
      unfold PollAndAccumulateRunner.new DecodeGpioRegsAndAccumulate.new at h
      simp only [hmask, hn] at h
      cases h

theorem inv_of_start (p : Platform) (h : start rpi config cc = .ok (some s)) :
    Inv p rpi config (cc.addChannels config.activePins) s ∧ s.main = .looping ∧ s.emitted = [] := by
  obtain ⟨hsetup, hn, hrange⟩ := channels_of_start h
  obtain ⟨t, ht, hinv⟩ := start_eq_ok p hsetup hn hrange
  rw [h] at ht
  injection ht with ht
  injection ht with ht
  subst ht
  exact hinv

/-- What is observed after a schedule is observed in a reachable state of a run. -/
theorem reachable_of_schedule (p : Platform) (rpi : RPiInterface)
    (config : PulseCounterConfiguration) (cc : ConfiguredChannels) (actions : List Action)
    {β : Type} (f : System → β) (b : β)
    (h : (schedule p rpi config cc actions).map (Except.map f) = some (.ok b)) :
    ∃ s₀ s, start rpi config cc = .ok (some s₀) ∧ (machine p rpi config).Reachable s₀ s ∧
      f s = b := by
  unfold schedule at h
  split at h
  · next s₀ hstart =>
    obtain ⟨s, hs, hfs⟩ := Machine.exec_of_observed h
    exact ⟨s₀, s, hstart, .of_exec hs, hfs⟩
  · cases h
  · cases h

end StartUp

end PulseCounterMain

end PulseCounter
