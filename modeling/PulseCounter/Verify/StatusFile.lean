import PulseCounter.Verify.ReportHistory
import PulseCounter.Verify.Columns

/-!
# The status file during a run

Every one-second report writes the status file anew if it can be opened, so a program that reads the file
finds the last report that could be written. Whatever the interleaving, it reads there the pins and the
counts of the polling loop stopped after some of its reads, and what it reads later is never behind what it
read before (`status_file_of_run`).
-/

namespace PulseCounter.PulseCounterMain

/-- What a call writes into the status file, if it writes it. -/
def Emission.statusFile? (e : Emission) : Option (List Char) :=
  match e.report with
  | .dumpDataToFile _ _ => if e.opened then some e.text else none
  | _ => none

/-- The status file after these calls, if one of them wrote it. -/
def statusFile (emitted : List Emission) : Option (List Char) :=
  (emitted.filterMap Emission.statusFile?).getLast?

variable {p : Platform} {rpi : RPiInterface} {config : PulseCounterConfiguration}
  {cc : ConfiguredChannels} {s₀ : System}

theorem statusFile_append (l r : List Emission) :
    statusFile (l ++ r) = (statusFile r).or (statusFile l) := by
  unfold statusFile
  rw [List.filterMap_append, List.getLast?_append]

theorem mem_of_statusFile {emitted : List Emission} {text : List Char}
    (h : statusFile emitted = some text) : ∃ e ∈ emitted, e.statusFile? = some text :=
  List.mem_filterMap.mp (List.mem_of_getLast? h)

/-- A status file shows the pins, and counts with their top bits clear as they are. -/
theorem Emission.statusFile?_shows {e : Emission} {text : List Char}
    (hwritten : e.report.text (display config) p e.opened = .ok e.text)
    (hclear : ∀ c ∈ e.report.result, c < 0x80000000) (h : e.statusFile? = some text) :
    Decimal.columns text 1 = some (config.activePins.map fun pin => some pin.toInt) ∧
      Decimal.columns text 2 = some (e.report.result.map fun c => some (c.toNat : Int)) := by
  have hshows := Emission.shows hwritten
  obtain ⟨report, written, opened, point, elapsed, seen⟩ := e
  cases report with
  | channels result | summary result duration => cases h
  | dumpDataToFile result duration =>
    unfold Emission.statusFile? at h
    simp only at h
    split at h
    · next hopened =>
      injection h with h
      subst h
      obtain ⟨hpins, hcounts⟩ := hshows hopened
      rw [List.map_map] at hpins
      refine ⟨hpins, ?_⟩
      rw [hcounts]
      exact congrArg some ((DisplayData.map_asInt_eq_iff result).mpr hclear)
    · cases h

/-- The reports displayed are those of the other machine, which are what the display writes for them. -/
theorem written_of_reachable (hstart : start rpi config cc = .ok (some s₀)) {x : Threads}
    (hx : (Threads.machine p rpi config).Reachable (.start s₀) x) {e : Emission}
    (he : e ∈ x.system.emitted) :
    e.report.text (display config) p e.opened = .ok e.text := by
  obtain ⟨⟨t, -, h⟩, -⟩ := follows_of_reachable hstart hx
  have hmade : x.system.emitted <+: t.emitted := by
    rw [h.system]
    exact x.emitted_prefix
  exact (h.inv.emitted e (hmade.subset he)).text

theorem System.header_afterReport (s : System) : s.afterReport.header = s.header := by
  obtain ⟨_, _, _, main⟩ := s
  cases main <;> rfl

theorem Threads.header_settled (x : Threads) : (x.settled p config).header = x.system.header := by
  unfold Threads.settled
  split
  · exact System.header_afterReport _
  · rfl

/-- The header stays. -/
theorem header_of_reachable (hstart : start rpi config cc = .ok (some s₀)) {x : Threads}
    (hx : (Threads.machine p rpi config).Reachable (.start s₀) x) :
    x.system.header = (display config).header .stdout := by
  obtain ⟨⟨t, -, h⟩, -⟩ := follows_of_reachable hstart hx
  rw [← h.inv.header, h.system]
  exact x.header_settled.symm

/-- What has been displayed stays. -/
theorem emitted_mono (hstart : start rpi config cc = .ok (some s₀)) {x y : Threads}
    (hx : (Threads.machine p rpi config).Reachable (.start s₀) x)
    (hy : (Threads.machine p rpi config).Reachable x y) : x.system.emitted <+: y.system.emitted := by
  refine (hy.invariant (fun y => (Threads.machine p rpi config).Reachable (.start s₀) y ∧
    x.system.emitted <+: y.system.emitted) ⟨hx, List.prefix_refl _⟩ ?_).2
  rintro a u v ⟨hu, hmade⟩ hs
  obtain ⟨t, -, hsteps⟩ := small_steps_of_reachable hstart hu hs
  refine ⟨hu.step hs, ?_⟩
  cases hsteps with
  | display opened seen call text hpc hnext htext =>
    rw [System.emitted_afterReport]
    exact hmade.trans (List.prefix_append _ _)
  | readFirst | testRunning | skip | callProcess | lockProcess | processChannel | unlockProcess | wake
  | clearLocal | lockGetResult | copyChannel | unlockGetResult | stop | join => exact hmade

/-- A status file with the counts of the polling loop stopped after `k` of its reads. -/
structure Describes (config : PulseCounterConfiguration) (cc : ConfiguredChannels) (words : List UInt32)
    (k : Nat) (counts : List UInt32) (text : List Char) : Prop where
  some_reads : k ≤ words.length
  polled : PollAndAccumulateRunner.readCounts cc (words.take k) = .ok counts
  pinsLine : Decimal.columns text 1 = some (config.activePins.map fun pin => some pin.toInt)
  countsLine : Decimal.columns text 2 = some (counts.map fun c => some (c.toNat : Int))

/-- What a status file shows is one of the reports in the history of the run. -/
theorem History.describes {s : System} {ks : List Nat} (h : History cc s ks) (hn : cc.totalChannels ≠ 0)
    (hrange : cc.InRange) (hmask : cc.getChannelsMask = .ok s.runner.m_gpio_channel_mask)
    (hreads : s.reads.length < 2 ^ 31) {k : Nat} (hk : k ∈ ks) {e : Emission} (he : e ∈ s.emitted)
    (hresult : e.report.result =
      countsAfter cc (passedWords s.runner.m_gpio_channel_mask (s.reads.take k)))
    (hwritten : e.report.text (display config) p e.opened = .ok e.text) {text : List Char}
    (htext : e.statusFile? = some text) : Describes config cc s.reads k e.report.result text := by
  obtain ⟨hpins, hcounts⟩ := Emission.statusFile?_shows hwritten (h.clear hreads he) htext
  refine ⟨h.reads k hk, ?_, hpins, hcounts⟩
  rw [readCounts_eq hn hrange hmask, hresult]

/-- **The status file during a run.** In every interleaving, as long as the register has been read less
than `2 ^ 31` times, a status file that has been written shows in its second line the pins and in its third
exactly the counts of the polling loop stopped after some of its reads. What it showed before were the
counts after no more reads, and no count was greater. -/
theorem status_file_of_run (p : Platform) (rpi : RPiInterface) (config : PulseCounterConfiguration)
    (cc : ConfiguredChannels) (s₀ : System) (hstart : start rpi config cc = .ok (some s₀))
    (x y : Threads) (hx : (Threads.machine p rpi config).Reachable (.start s₀) x)
    (hy : (Threads.machine p rpi config).Reachable x y) (hreads : y.system.reads.length < 2 ^ 31)
    (earlier : List Char) (hearlier : statusFile x.system.emitted = some earlier) :
    ∃ (text : List Char) (j k : Nat) (counts counts' : List UInt32),
      statusFile y.system.emitted = some text ∧ j ≤ k ∧
      Describes config (cc.addChannels config.activePins) y.system.reads j counts earlier ∧
      Describes config (cc.addChannels config.activePins) y.system.reads k counts' text ∧
      List.Forall₂ (· ≤ ·) counts counts' := by
  obtain ⟨-, hn, hrange⟩ := channels_of_start hstart
  obtain ⟨hmask, -, ks, hks, -⟩ := history_of_reachable hstart hx hy
  obtain ⟨rest, hrest⟩ := emitted_mono hstart hx hy
  have hwritten := fun e => written_of_reachable (e := e) hstart (hx.trans hy)
  have hwords := hks.shows
  rw [← hrest] at hwords hwritten
  have hbefore := List.forall₂_take_append _ _ _ hwords
  have hafter := List.forall₂_drop_append _ _ _ hwords
  -- the report that was in the file
  obtain ⟨e, he, htext⟩ := mem_of_statusFile hearlier
  obtain ⟨j, hj, hresult⟩ := exists_of_forall₂ hbefore he
  have hdescribes := hks.describes hn hrange hmask hreads (List.mem_of_mem_take hj)
    (hrest ▸ List.mem_append_left rest he) hresult (hwritten e (List.mem_append_left rest he)) htext
  cases hnew : statusFile rest with
  | none =>
    refine ⟨earlier, j, j, _, _, ?_, Nat.le_refl j, hdescribes, hdescribes, ?_⟩
    · rw [← hrest, statusFile_append, hnew, Option.none_or, hearlier]
    · exact List.forall₂_same.mpr fun c _ => Nat.le_refl _
  | some text =>
    -- it has been written since
    obtain ⟨e', he', htext'⟩ := mem_of_statusFile hnew
    obtain ⟨k, hk, hresult'⟩ := exists_of_forall₂ hafter he'
    refine ⟨text, j, k, _, _, ?_, ?_, hdescribes, hks.describes hn hrange hmask hreads
      (List.mem_of_mem_drop hk) (hrest ▸ List.mem_append_right _ he') hresult'
      (hwritten e' (List.mem_append_right _ he')) htext', ?_⟩
    · rw [← hrest, statusFile_append, hnew, Option.some_or]
    · have hsorted := hks.sorted
      rw [← List.take_append_drop x.system.emitted.length ks, List.pairwise_append] at hsorted
      exact hsorted.2.2 j hj k hk
    · have hle := hks.pairwise_le (Nat.lt_trans hreads (by decide))
      rw [← hrest, List.pairwise_append] at hle
      exact hle.2.2 e he e' he'

/-- A one-second report on one channel. -/
def SmallAction.secondReport (elapsed : Nat) : List SmallAction :=
  .wake elapsed :: (report ++ report)

/-- The file is written, a pulse follows, and the file is written again. -/
theorem status_file_of_run_pulse :
    ∃ (s₀ : System) (x y : Threads) (earlier text : List Char) (j k : Nat) (counts counts' : List UInt32),
      start (RPiInterfaceReal 7) { activePins := [11] } (.new (RPiInterfaceReal 7)) = .ok (some s₀) ∧
      y.system.emitted.map (fun e => e.report.result) = [[0], [0], [1], [1]] ∧
      statusFile x.system.emitted = some earlier ∧ statusFile y.system.emitted = some text ∧ j ≤ k ∧
      Decimal.columns earlier 2 = some (counts.map fun c => some (c.toNat : Int)) ∧
      Decimal.columns text 2 = some (counts'.map fun c => some (c.toNat : Int)) ∧
      List.Forall₂ (· ≤ ·) counts counts' := by
  obtain ⟨s₀, x, hstart, hexec, hobserved⟩ := threads_of_schedule .saturating (RPiInterfaceReal 7)
    { activePins := [11] } (.new (RPiInterfaceReal 7))
    ([.readFirst 0, .testRunning] ++ SmallAction.secondReport 1000)
    (fun x => (statusFile x.system.emitted).isSome) true (by decide +kernel)
  obtain ⟨s₀', y, hstart', hexec', hobserved'⟩ := threads_of_schedule .saturating (RPiInterfaceReal 7)
    { activePins := [11] } (.new (RPiInterfaceReal 7))
    (([.readFirst 0, .testRunning] ++ SmallAction.secondReport 1000) ++
      ([.readNext 0x20000, .lockProcess, .processChannel, .unlockProcess] ++
        SmallAction.secondReport 2000))
    (fun y => (y.system.reads.length, y.system.emitted.map fun e => e.report.result))
    (2, [[0], [0], [1], [1]]) (by decide +kernel)
  injection hobserved' with hreads hresults
  rw [hstart] at hstart'
  injection hstart' with hstart'
  injection hstart' with hstart'
  subst hstart'
  rw [Machine.exec_append, hexec] at hexec'
  obtain ⟨earlier, hearlier⟩ := Option.isSome_iff_exists.mp hobserved
  obtain ⟨text, j, k, counts, counts', htext, hle, hbefore, hafter, hcounts⟩ := status_file_of_run
    .saturating _ _ _ s₀ hstart x y (.of_exec hexec) (.of_exec hexec') (by rw [hreads]; decide) earlier
    hearlier
  exact ⟨s₀, x, y, earlier, text, j, k, counts, counts', hstart, hresults, hearlier, htext, hle,
    hbefore.countsLine, hafter.countsLine, hcounts⟩

end PulseCounter.PulseCounterMain
