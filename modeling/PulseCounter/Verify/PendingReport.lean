import PulseCounter.PulseCounterThreads
import PulseCounter.Lib.Refinement
import PulseCounter.Verify.System

/-!
# The pending report

`Threads.Follows` relates a state of the machine of small steps to one of the machine that takes calls as
one step. The two differ while a call is under way. A word counts as processed when the polling thread
releases the mutex. A report counts as made when the main thread does: what it will display is settled
then, since the polling thread leaves the local vector alone (`settled`), but nothing has been displayed
yet.

`ProcessAt` and `CallAt` say what the decoder holds by where the threads stand in the two calls; a thread
does not notice what the other one does outside its critical section (`ProcessAt.frame`,
`CallAt.frame`).
-/

namespace PulseCounter.PulseCounterMain

open DecodeGpioRegsAndAccumulate

variable {p : Platform} {rpi : RPiInterface} {config : PulseCounterConfiguration}
  {cc : ConfiguredChannels}

/-! ## The pending report -/

namespace Threads

/-- The part of the state that both machines have, once the report that is in the hands of the main
thread has been displayed. -/
def settled (p : Platform) (config : PulseCounterConfiguration) (s : Threads) : System :=
  match s.call, s.system.nextReport with
  | .displaying opened seen, some call =>
    let report := call s.system.decoder.m_gpioPinAccumulationLocal
    System.afterReport { s.system with
      emitted := s.system.emitted ++ [{
        report := report
        text := (report.text (PulseCounterMain.display config) p opened).toOption.getD []
        opened := report.opens opened
        point := s.system.point
        elapsed := s.system.elapsed
        seen := seen }] }
  | _, _ => s.system

end Threads

namespace System

/-- What the polling thread changes. -/
def polled (s : System) (runner : PollAndAccumulateRunner) (poller : PollPc)
    (reads shown : List UInt32) : System :=
  { s with runner := runner, poller := poller, reads := reads, shown := shown }

theorem afterReport_polled (s : System) (runner : PollAndAccumulateRunner) (poller : PollPc)
    (reads shown : List UInt32) :
    (s.polled runner poller reads shown).afterReport =
      s.afterReport.polled runner poller reads shown := by
  obtain ⟨_, _, _, main⟩ := s
  cases main <;> rfl

theorem afterReport_eq (s : System) :
    s.afterReport = s.afterReport.polled s.runner s.poller s.reads s.shown := by
  obtain ⟨_, _, _, main⟩ := s
  cases main <;> rfl

theorem afterReport_withDecoder (s : System) (d : DecodeGpioRegsAndAccumulate) :
    (s.withDecoder d).afterReport = s.afterReport.withDecoder d := by
  obtain ⟨_, _, _, main⟩ := s
  cases main <;> rfl

theorem eq_withDecoder {s t : System} {d : DecodeGpioRegsAndAccumulate} (h : t = s.withDecoder d) :
    t = s.withDecoder t.decoder := by
  rw [h]
  rfl

theorem nextReport_polled (s : System) (runner : PollAndAccumulateRunner) (poller : PollPc)
    (reads shown : List UInt32) :
    (s.polled runner poller reads shown).nextReport = s.nextReport := rfl

theorem afterReport_reporting {s : System} (h : s.main = .reporting) :
    s.afterReport = { s with main := .dumping } := by
  unfold afterReport
  rw [h]

theorem afterReport_dumping {s : System} (h : s.main = .dumping) :
    s.afterReport = { s with loop := s.loop.displayed, main := .looping, point := s.point + 1 } := by
  unfold afterReport
  rw [h]

theorem afterReport_looping {s : System} (h : s.main = .looping) :
    s.afterReport = { s with main := .summing } := by
  unfold afterReport
  rw [h]

theorem afterReport_summing {s : System} (h : s.main = .summing) :
    s.afterReport = { s with main := .stopping } := by
  unfold afterReport
  rw [h]

theorem reported_main (s : System) (opened : Bool) (report : Report) (text : List Char) :
    (s.reported opened report text).main = s.main := rfl

theorem result_nextReport {s : System} {call : List UInt32 → Report} (h : s.nextReport = some call)
    (v : List UInt32) : (call v).result = v := by
  unfold nextReport at h
  split at h
  · injection h with h
    subst h
    rfl
  · injection h with h
    subst h
    rfl
  · split at h
    · cases h
    · injection h with h
      subst h
      rfl
  · injection h with h
    subst h
    rfl
  · cases h

/-- A call for a report as one step, whatever becomes of the status file in the calls that do not
write it. -/
theorem report_steps {s : System} {call : List UInt32 → Report} (h : s.nextReport = some call)
    {opened : Bool} {text : List Char}
    (htext : (call s.counts).text (display config) p opened = .ok text) :
    ∃ a, Steps p rpi config s a (s.reported opened (call s.counts) text).afterReport := by
  unfold nextReport at h
  split at h
  · next hpc =>
    injection h with h
    subst h
    rw [afterReport_reporting ((s.reported_main _ _ _).trans hpc)]
    exact ⟨_, .channels text hpc htext⟩
  · next hpc =>
    injection h with h
    subst h
    rw [afterReport_dumping ((s.reported_main _ _ _).trans hpc)]
    exact ⟨_, .dumpDataToFile opened text hpc htext⟩
  · next hpc =>
    split at h
    · cases h
    · next hprocess =>
      injection h with h
      subst h
      rw [afterReport_looping ((s.reported_main _ _ _).trans hpc)]
      exact ⟨_, .lastChannels text hpc (Bool.eq_false_iff.mpr hprocess) htext⟩
  · next hpc =>
    injection h with h
    subst h
    rw [afterReport_summing ((s.reported_main _ _ _).trans hpc)]
    exact ⟨_, .summary text hpc htext⟩
  · cases h

end System

/-! ## The relation -/

namespace Threads

/-- The decoder, by where the polling thread stands in `process`. -/
def ProcessAt (cc : ConfiguredChannels) (s : Threads) : ProcessPoint → Prop
  | .returned =>
    s.m_accumulate_mutex ≠ some .poller ∧ Saw cc s.system.shown s.system.decoder
  | .called word =>
    s.m_accumulate_mutex ≠ some .poller ∧ Saw cc s.system.shown s.system.decoder ∧
      ∃ last, s.system.poller = .reading last ∧ s.system.masked word ≠ last
  | .inLoop word i _ =>
    s.m_accumulate_mutex = some .poller ∧
      (∃ last, s.system.poller = .reading last ∧ s.system.masked word ≠ last) ∧
      s.system.decoder.m_configured_channels = cc ∧
      Partway s.system.decoder (fun g => Signal.rises (bit g) 0 s.system.shown)
        (fun g => bit g (s.system.shown.getLastD 0)) (s.system.masked word) i

/-- The local vector, by where the main thread stands in a call for a report. -/
def CallAt (cc : ConfiguredChannels) (s : Threads) : CallPoint → Prop
  | .returned => s.m_accumulate_mutex ≠ some .main
  | .cleared =>
    s.m_accumulate_mutex ≠ some .main ∧ s.system.nextReport.isSome ∧
      s.system.decoder.m_gpioPinAccumulationLocal = []
  | .copying i =>
    s.m_accumulate_mutex = some .main ∧ s.system.nextReport.isSome ∧
      s.system.decoder.m_gpioPinAccumulationLocal = s.system.decoder.m_gpioPinAccumulation.take i
  | .displaying _ seen =>
    s.m_accumulate_mutex ≠ some .main ∧ s.system.nextReport.isSome ∧ seen ≤ s.system.shown.length ∧
      s.system.decoder.m_gpioPinAccumulationLocal = countsAfter cc (s.system.shown.take seen)

/-- The state of the machine that takes calls as one step: a report counts as made from the moment its
vector is copied, a word as processed when the mutex is released. -/
structure Follows (p : Platform) (rpi : RPiInterface) (config : PulseCounterConfiguration)
    (cc : ConfiguredChannels) (s : Threads) (t : System) : Prop where
  inv : Inv p rpi config cc t
  system : t = (s.settled p config).withDecoder t.decoder
  process : ProcessAt cc s s.process
  call : CallAt cc s s.call

section Frames

variable {s s' : Threads} {t : System}

theorem settled_of_nextReport (h : s.system.nextReport = none) : s.settled p config = s.system := by
  unfold settled
  rw [h]
  split
  · next heq => cases heq
  · rfl

theorem settled_of_call (h : ∀ opened seen, s.call ≠ .displaying opened seen) :
    s.settled p config = s.system := by
  unfold settled
  split
  · next hcall _ => exact absurd hcall (h _ _)
  · rfl

theorem settled_displaying {opened : Bool} {seen : Nat} {call : List UInt32 → Report}
    {text : List Char} (hcall : s.call = .displaying opened seen)
    (hnext : s.system.nextReport = some call)
    (htext : (call s.system.decoder.m_gpioPinAccumulationLocal).text (display config) p opened =
      .ok text) :
    s.settled p config = System.afterReport { s.system with
      emitted := s.system.emitted ++ [{
        report := call s.system.decoder.m_gpioPinAccumulationLocal
        text := text
        opened := (call s.system.decoder.m_gpioPinAccumulationLocal).opens opened
        point := s.system.point
        elapsed := s.system.elapsed
        seen := seen }] } := by
  unfold settled
  rw [hcall, hnext]
  simp only [htext]
  rfl

/-- The report in hand is the only difference. -/
theorem settled_eq (s : Threads) : s.settled p config =
    (s.settled p config).polled s.system.runner s.system.poller s.system.reads s.system.shown := by
  unfold settled
  split
  · exact System.afterReport_eq _
  · rfl

/-- The polling thread does not disturb the report in hand. -/
theorem settled_polled {runner : PollAndAccumulateRunner} {poller : PollPc} {reads shown : List UInt32}
    (hsystem : s'.system = s.system.polled runner poller reads shown) (hcall : s'.call = s.call)
    (hlocal : runner.m_decodeAndAccummulate.m_gpioPinAccumulationLocal =
      s.system.decoder.m_gpioPinAccumulationLocal) :
    s'.settled p config = (s.settled p config).polled runner poller reads shown := by
  unfold settled
  rw [hsystem, hcall, System.nextReport_polled]
  have hlocal' : (s.system.polled runner poller reads shown).decoder.m_gpioPinAccumulationLocal =
      s.system.decoder.m_gpioPinAccumulationLocal := hlocal
  rw [hlocal']
  split
  · rw [← System.afterReport_polled]
    rfl
  · rfl

/-- A thread in a call for a report does not notice what the other one does outside its critical
section. -/
theorem CallAt.frame {pc : CallPoint} (h : CallAt cc s pc)
    (howner : s'.m_accumulate_mutex = some .main ↔ s.m_accumulate_mutex = some .main)
    (hnext : s'.system.nextReport = s.system.nextReport)
    (hlocal : s'.system.decoder.m_gpioPinAccumulationLocal =
      s.system.decoder.m_gpioPinAccumulationLocal)
    (hcounts : s.m_accumulate_mutex = some .main →
      s'.system.decoder.m_gpioPinAccumulation = s.system.decoder.m_gpioPinAccumulation)
    (hshown : s.system.shown <+: s'.system.shown) : CallAt cc s' pc := by
  cases pc with
  | returned => exact mt howner.mp h
  | cleared =>
    obtain ⟨hfree, hreport, hempty⟩ := h
    exact ⟨mt howner.mp hfree, by rw [hnext]; exact hreport, hlocal.trans hempty⟩
  | copying i =>
    obtain ⟨hown, hreport, hcopied⟩ := h
    refine ⟨howner.mpr hown, by rw [hnext]; exact hreport, ?_⟩
    rw [hlocal, hcopied, hcounts hown]
  | displaying opened seen =>
    obtain ⟨hfree, hreport, hseen, hcopied⟩ := h
    refine ⟨mt howner.mp hfree, by rw [hnext]; exact hreport,
      Nat.le_trans hseen hshown.length_le, ?_⟩
    obtain ⟨rest, hrest⟩ := hshown
    rw [hlocal, hcopied, ← hrest, List.take_append_of_le_length hseen]

/-- The polling thread does not notice what the main thread does to the local vector. -/
theorem ProcessAt.frame {pc : ProcessPoint} (h : ProcessAt cc s pc)
    (howner : s'.m_accumulate_mutex = some .poller ↔ s.m_accumulate_mutex = some .poller)
    (hpoller : s'.system.poller = s.system.poller) (hshown : s'.system.shown = s.system.shown)
    (hmask : s'.system.runner.m_gpio_channel_mask = s.system.runner.m_gpio_channel_mask)
    {v : List UInt32} (hdecoder : s'.system.decoder =
      { s.system.decoder with m_gpioPinAccumulationLocal := v }) : ProcessAt cc s' pc := by
  have hmasked : s'.system.masked = s.system.masked := by
    funext word
    unfold System.masked
    rw [hmask]
  cases pc with
  | returned =>
    obtain ⟨hfree, hsaw⟩ := h
    refine ⟨mt howner.mp hfree, ?_⟩
    rw [hshown, hdecoder]
    exact hsaw.of_local v
  | called word =>
    obtain ⟨hfree, hsaw, hword⟩ := h
    refine ⟨mt howner.mp hfree, ?_, ?_⟩
    · rw [hshown, hdecoder]
      exact hsaw.of_local v
    · rw [hpoller, hmasked]
      exact hword
  | inLoop word i changesDetected =>
    obtain ⟨hown, hword, hcc, hpart⟩ := h
    refine ⟨howner.mpr hown, ?_, ?_, ?_⟩
    · rw [hpoller, hmasked]
      exact hword
    · rw [hdecoder]
      exact hcc
    · rw [hshown, hmasked, hdecoder]
      exact ⟨hpart.accumulation, hpart.last⟩

/-- The polling thread is not in its critical section. -/
theorem ProcessAt.saw {pc : ProcessPoint} (h : ProcessAt cc s pc)
    (howner : s.m_accumulate_mutex ≠ some .poller) : Saw cc s.system.shown s.system.decoder := by
  cases pc with
  | returned => exact h.2
  | called word => exact h.2.1
  | inLoop word i changesDetected => exact absurd h.1 howner

end Frames

/-! ## Step by step -/

namespace Follows

variable {s s' : Threads} {t t' : System}

theorem poller (h : Follows p rpi config cc s t) : t.poller = s.system.poller := by
  rw [h.system, settled_eq]
  rfl

theorem reads (h : Follows p rpi config cc s t) : t.reads = s.system.reads := by
  rw [h.system, settled_eq]
  rfl

theorem shown (h : Follows p rpi config cc s t) : t.shown = s.system.shown := by
  rw [h.system, settled_eq]
  rfl

theorem runner (h : Follows p rpi config cc s t) :
    t.runner = { s.system.runner with m_decodeAndAccummulate := t.decoder } := by
  have hrunner : (s.settled p config).runner = s.system.runner := by
    rw [settled_eq]
    rfl
  rw [← hrunner]
  exact congrArg System.runner h.system

theorem system_eq (h : Follows p rpi config cc s t) (hsettled : s.settled p config = s.system) :
    t = s.system.withDecoder t.decoder := by
  have hsystem := h.system
  rw [hsettled] at hsystem
  exact hsystem

theorem masked (h : Follows p rpi config cc s t) (word : UInt32) :
    t.masked word = s.system.masked word := by
  unfold System.masked
  rw [h.runner]

/-- A step of the polling thread, on both sides. -/
theorem of_polled (h : Follows p rpi config cc s t) {runner r : PollAndAccumulateRunner}
    {poller : PollPc} {reads shown : List UInt32}
    (hsystem : s'.system = s.system.polled runner poller reads shown) (hcall : s'.call = s.call)
    (hlocal : runner.m_decodeAndAccummulate.m_gpioPinAccumulationLocal =
      s.system.decoder.m_gpioPinAccumulationLocal)
    (ht : t' = t.polled r poller reads shown)
    (hrunner : r = { runner with m_decodeAndAccummulate := t'.decoder })
    (hinv : Inv p rpi config cc t') (hprocessAt : ProcessAt cc s' s'.process)
    (hcallAt : CallAt cc s' s'.call) : Follows p rpi config cc s' t' := by
  refine ⟨hinv, ?_, hprocessAt, hcallAt⟩
  rw [settled_polled hsystem hcall hlocal]
  have hpolled := congrArg (fun u => u.polled r poller reads shown) h.system
  rw [ht]
  refine hpolled.trans ?_
  rw [hrunner, ht]
  rfl

theorem idle (h : Follows p rpi config cc s t) (hpoller : ∀ last, s.system.poller ≠ .reading last) :
    s.process = .returned := by
  have hprocess := h.process
  cases hpc : s.process with
  | returned => rfl
  | called word =>
    rw [hpc] at hprocess
    obtain ⟨-, -, last, hreading, -⟩ := hprocess
    exact absurd hreading (hpoller last)
  | inLoop word i changesDetected =>
    rw [hpc] at hprocess
    obtain ⟨-, ⟨last, hreading, -⟩, -⟩ := hprocess
    exact absurd hreading (hpoller last)

/-- A step of the polling thread outside `process`. -/
theorem of_idle (h : Follows p rpi config cc s t) (hidle : s.process = .returned) {poller : PollPc}
    {reads : List UInt32} (ht : t' = t.polled t.runner poller reads t.shown)
    (hinv : Inv p rpi config cc t') :
    Follows p rpi config cc
      { s with system := s.system.polled s.system.runner poller reads s.system.shown } t' := by
  have hprocess := h.process
  have hcall := h.call
  have hdecoder : t'.decoder = t.decoder := by
    rw [ht]
    rfl
  refine h.of_polled rfl rfl rfl (h.shown ▸ ht) ?_ hinv ?_ ?_
  · rw [hdecoder]
    exact h.runner
  · rw [hidle] at hprocess ⊢
    exact hprocess
  · exact hcall.frame Iff.rfl rfl rfl (fun _ => rfl) (List.prefix_refl _)

/-- A step that both machines take, while the main thread is not in a call for a report. -/
theorem of_main (h : Follows p rpi config cc s t) (hcall : s.call = .returned)
    {system : System} {d : DecodeGpioRegsAndAccumulate}
    (hpoller : system.poller = s.system.poller) (hshown : system.shown = s.system.shown)
    (hmask : system.runner.m_gpio_channel_mask = s.system.runner.m_gpio_channel_mask)
    (hdecoder : system.decoder = s.system.decoder)
    (hinv : Inv p rpi config cc (system.withDecoder d)) :
    Follows p rpi config cc { s with system := system } (system.withDecoder d) := by
  have hcallAt := h.call
  refine ⟨hinv, ?_, ?_, ?_⟩
  · unfold settled
    rw [hcall]
    rfl
  · exact h.process.frame Iff.rfl hpoller hshown hmask hdecoder
  · rw [hcall] at hcallAt ⊢
    exact hcallAt

/-- The main thread is not in a call for a report. -/
theorem returned (h : Follows p rpi config cc s t) (hnext : s.system.nextReport = none) :
    s.call = .returned := by
  have hcall := h.call
  cases hpc : s.call with
  | returned => rfl
  | cleared =>
    rw [hpc] at hcall
    obtain ⟨-, hsome, -⟩ := hcall
    rw [hnext] at hsome
    cases hsome
  | copying i =>
    rw [hpc] at hcall
    obtain ⟨-, hsome, -⟩ := hcall
    rw [hnext] at hsome
    cases hsome
  | displaying opened seen =>
    rw [hpc] at hcall
    obtain ⟨-, hsome, -⟩ := hcall
    rw [hnext] at hsome
    cases hsome

end Follows

end Threads

end PulseCounter.PulseCounterMain
