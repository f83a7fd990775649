import PulseCounter.Verify.Interleavings

/-!
# The reports of a run, one after the other

What the polling loop passes on of a prefix of its reads is a prefix of what it passes on of them all. So
each report shows the counts of the polling loop stopped after some of its reads, a later report after no
fewer (`reports_linearize`), and a count does not go down from report to report as long as it cannot have
gone round (`reports_never_decrease`).

Which reports a run makes and when depends on the times at which the main thread wakes and on nothing else
(`reports_timeline`).
-/

namespace PulseCounter

/-! ## Prefixes of the reads -/

/-- What the polling loop passes on of its reads, the first one included. -/
def passedWords (mask : UInt32) : List UInt32 → List UInt32
  | [] => []
  | first :: words => changedWords mask first words

/-- The counts of the polling loop stopped after these reads. -/
def PollAndAccumulateRunner.readCounts (cc : ConfiguredChannels) :
    List UInt32 → Except Fault (List UInt32)
  | [] => .ok (List.replicate cc.totalChannels 0)
  | first :: words => pollCounts cc first words

section Prefixes

variable {cc : ConfiguredChannels} {mask : UInt32}

theorem passedWords_mono {reads reads' : List UInt32} (h : reads <+: reads') :
    passedWords mask reads <+: passedWords mask reads' := by
  obtain ⟨rest, rfl⟩ := h
  cases reads with
  | nil => exact List.nil_prefix
  | cons first words =>
    change changedWords mask first words <+: changedWords mask first (words ++ rest)
    unfold changedWords
    rw [List.map_append, Signal.changes_append]
    exact List.prefix_append _ _

theorem length_passedWords_le (reads : List UInt32) :
    (passedWords mask reads).length ≤ reads.length := by
  cases reads with
  | nil => exact Nat.le_refl _
  | cons first words =>
    unfold passedWords changedWords Signal.changes
    refine Nat.le_trans (List.length_filterMap_le _ _) ?_
    simp [Signal.steps]

theorem readCounts_eq (hn : cc.totalChannels ≠ 0) (hrange : cc.InRange)
    (hmask : cc.getChannelsMask = .ok mask) (reads : List UInt32) :
    PollAndAccumulateRunner.readCounts cc reads = .ok (countsAfter cc (passedWords mask reads)) := by
  cases reads with
  | nil =>
    unfold PollAndAccumulateRunner.readCounts passedWords countsAfter
    rw [← ConfiguredChannels.length_gpios, ← List.map_const']
    rfl
  | cons first words => exact pollCounts_eq hn hrange hmask first words

/-- Counts that have not gone round grow with the words shown. -/
theorem countsAfter_le {ws ws' : List UInt32} (h : ws <+: ws') (hround : ws'.length < 2 ^ 32) :
    List.Forall₂ (· ≤ ·) (countsAfter cc ws) (countsAfter cc ws') := by
  unfold countsAfter
  rw [List.forall₂_map_left_iff, List.forall₂_map_right_iff, List.forall₂_same]
  intro g _
  have hle := Signal.rises_le_of_prefix (bit g) 0 h
  have hlength := Signal.rises_le_length (bit g) 0 ws'
  rw [UInt32.le_iff_toNat_le, UInt32.toNat_ofNat', UInt32.toNat_ofNat',
    Nat.mod_eq_of_lt (by omega), Nat.mod_eq_of_lt (by omega)]
  exact hle

end Prefixes

theorem exists_of_forall₂ {α β : Type*} {R : α → β → Prop} {l : List α} {m : List β}
    (h : List.Forall₂ R l m) {b : β} (hb : b ∈ m) : ∃ a ∈ l, R a b := by
  induction h with
  | nil => cases hb
  | cons hR _ ih =>
    rcases List.mem_cons.mp hb with rfl | hb
    · exact ⟨_, List.mem_cons_self, hR⟩
    · obtain ⟨a, ha, hR'⟩ := ih hb
      exact ⟨a, List.mem_cons_of_mem _ ha, hR'⟩

namespace PulseCounterMain

open DecodeGpioRegsAndAccumulate

variable {p : Platform} {rpi : RPiInterface} {config : PulseCounterConfiguration}
  {cc : ConfiguredChannels} {s s₀ t : System}

theorem Inv.shown_eq_passed (h : Inv p rpi config cc s) :
    s.shown = passedWords s.runner.m_gpio_channel_mask s.reads := by
  cases hreads : s.reads with
  | nil =>
    have hpolled := h.polled
    cases hpc : s.poller with
    | starting =>
      rw [hpc] at hpolled
      exact hpolled.2
    | testing last | reading last =>
      rw [hpc] at hpolled
      obtain ⟨first, words, ⟨hcons, -⟩, -⟩ := hpolled
      rw [hreads] at hcons
      cases hcons
    | exited =>
      rw [hpc] at hpolled
      obtain ⟨first, words, hcons, -⟩ := hpolled
      rw [hreads] at hcons
      cases hcons
  | cons first words => exact h.shown_eq hreads

/-! ## One order of the reports -/

/-- The reports made so far, each with the number of reads that it shows. -/
structure History (cc : ConfiguredChannels) (s : System) (ks : List Nat) : Prop where
  reads : ∀ k ∈ ks, k ≤ s.reads.length
  sorted : ks.Pairwise (· ≤ ·)
  shows : List.Forall₂ (fun k e => e.report.result =
    countsAfter cc (passedWords s.runner.m_gpio_channel_mask (s.reads.take k))) ks s.emitted

namespace History

variable {ks : List Nat}

/-- A step that makes no report. -/
theorem frame (h : History cc s ks) (hreads : s.reads <+: t.reads)
    (hmask : t.runner.m_gpio_channel_mask = s.runner.m_gpio_channel_mask)
    (hemitted : t.emitted = s.emitted) : History cc t ks := by
  obtain ⟨rest, hrest⟩ := hreads
  refine ⟨fun k hk => ?_, h.sorted, ?_⟩
  · rw [← hrest, List.length_append]
    exact Nat.le_add_right_of_le (h.reads k hk)
  · rw [hemitted, hmask]
    have hshows := h.shows
    rw [List.forall₂_iff_get] at hshows ⊢
    obtain ⟨hlength, hshows⟩ := hshows
    refine ⟨hlength, fun i hi hi' => ?_⟩
    rw [hshows i hi hi', ← hrest, List.take_append_of_le_length (h.reads _ (List.get_mem _ _))]

/-- A report of the counts as they are. -/
theorem reported (hinv : Inv p rpi config cc s) (h : History cc s ks) (report : Report)
    (hresult : report.result = s.counts) (opened : Bool) (text : List Char) :
    History cc (s.reported opened report text) (ks ++ [s.reads.length]) := by
  refine ⟨fun k hk => ?_, ?_, ?_⟩
  · rcases List.mem_append.mp hk with hk | hk
    · exact h.reads k hk
    · obtain rfl := List.mem_singleton.mp hk
      exact Nat.le_refl _
  · refine List.pairwise_append.mpr ⟨h.sorted, List.pairwise_singleton _ _, fun k hk k' hk' => ?_⟩
    obtain rfl := List.mem_singleton.mp hk'
    exact h.reads k hk
  · refine List.rel_append h.shows (.cons ?_ .nil)
    change report.result = countsAfter cc (passedWords _ (s.reads.take s.reads.length))
    rw [List.take_length]
    have hcounts : s.counts = countsAfter cc s.shown := hinv.saw.accumulation
    rw [hresult, hcounts, hinv.shown_eq_passed]

/-- One step: the reports it makes are of all the reads. -/
theorem steps (hinv : Inv p rpi config cc s) (h : History cc s ks) {a : Action}
    (hs : Steps p rpi config s a t) :
    s.reads <+: t.reads ∧ ∃ new, History cc t (ks ++ new) ∧ ∀ k ∈ new, s.reads.length ≤ k := by
  have hkeep : ∀ {u : System}, History cc u ks →
      ∃ new, History cc u (ks ++ new) ∧ ∀ k ∈ new, s.reads.length ≤ k := by
    intro u hu
    exact ⟨[], by rwa [List.append_nil], by simp⟩
  have hreport : ∀ {u : System}, History cc u (ks ++ [s.reads.length]) →
      ∃ new, History cc u (ks ++ new) ∧ ∀ k ∈ new, s.reads.length ≤ k := by
    intro u hu
    exact ⟨_, hu, by simp⟩
  cases hs with
  | readFirst word hpc | skip word last hpc hsame | process word last d changesDetected hpc hne hrun =>
    exact ⟨List.prefix_append _ _, hkeep (h.frame (List.prefix_append _ _) rfl rfl)⟩
  | testRunning last hpc => exact ⟨List.prefix_refl _, hkeep (h.frame (List.prefix_refl _) rfl rfl)⟩
  | wake elapsed hpc hprocess hgap =>
    exact ⟨List.prefix_refl _, hkeep (h.frame (List.prefix_refl _) rfl rfl)⟩
  | channels text hpc htext =>
    exact ⟨List.prefix_refl _, hreport ((reported hinv h _ rfl _ text).frame (List.prefix_refl _) rfl rfl)⟩
  | dumpDataToFile opened text hpc htext =>
    exact ⟨List.prefix_refl _, hreport ((reported hinv h _ rfl _ text).frame (List.prefix_refl _) rfl rfl)⟩
  | lastChannels text hpc hprocess htext =>
    exact ⟨List.prefix_refl _, hreport ((reported hinv h _ rfl _ text).frame (List.prefix_refl _) rfl rfl)⟩
  | summary text hpc htext =>
    exact ⟨List.prefix_refl _, hreport ((reported hinv h _ rfl _ text).frame (List.prefix_refl _) rfl rfl)⟩
  | stop hpc => exact ⟨List.prefix_refl _, hkeep (h.frame (List.prefix_refl _) rfl rfl)⟩
  | join hpc hexited => exact ⟨List.prefix_refl _, hkeep (h.frame (List.prefix_refl _) rfl rfl)⟩

/-- A run: the reports it makes are of the reads at its start, or of more. -/
theorem run (hn : cc.totalChannels ≠ 0) (hrange : cc.InRange) (hinv : Inv p rpi config cc s)
    (h : History cc s ks) (hst : (machine p rpi config).Reachable s t) :
    Inv p rpi config cc t ∧ s.reads <+: t.reads ∧
      ∃ new, History cc t (ks ++ new) ∧ ∀ k ∈ new, s.reads.length ≤ k := by
  refine hst.invariant (fun t => Inv p rpi config cc t ∧ s.reads <+: t.reads ∧
    ∃ new, History cc t (ks ++ new) ∧ ∀ k ∈ new, s.reads.length ≤ k)
    ⟨hinv, List.prefix_refl _, [], by rwa [List.append_nil], by simp⟩ ?_
  rintro a u v ⟨hu, hreads, new, hnew, hle⟩ hs
  obtain ⟨w, hw, hsteps⟩ := step_spec hn hrange hu.saw hs
  injection hw with hw
  subst hw
  obtain ⟨hgrow, last, hlast, hle'⟩ := hnew.steps hu hsteps
  refine ⟨hu.steps hrange hsteps, hreads.trans hgrow, new ++ last, ?_, fun k hk => ?_⟩
  · rw [← List.append_assoc]
    exact hlast
  · rcases List.mem_append.mp hk with hk | hk
    · exact hle k hk
    · exact Nat.le_trans hreads.length_le (hle' k hk)

/-- Counts that cannot have gone round do not go down from report to report. -/
theorem pairwise_le (h : History cc s ks) (hround : s.reads.length < 2 ^ 32) :
    s.emitted.Pairwise fun e e' => List.Forall₂ (· ≤ ·) e.report.result e'.report.result := by
  obtain ⟨hlength, hshows⟩ := List.forall₂_iff_get.mp h.shows
  refine List.pairwise_iff_get.mpr fun i j hij => ?_
  have hi : i.val < ks.length := by rw [hlength]; exact i.isLt
  have hj : j.val < ks.length := by rw [hlength]; exact j.isLt
  rw [hshows i.val hi i.isLt, hshows j.val hj j.isLt]
  have hle : ks[i.val] ≤ ks[j.val] := List.pairwise_iff_getElem.mp h.sorted i.val j.val hi hj hij
  refine countsAfter_le (passedWords_mono (List.take_prefix_take_left hle)) ?_
  refine Nat.lt_of_le_of_lt (length_passedWords_le _) ?_
  exact Nat.lt_of_le_of_lt (List.length_take_le' _ _) hround

/-- No count is more than the reads. -/
theorem count_le (h : History cc s ks) {e : Emission} (he : e ∈ s.emitted) {c : UInt32}
    (hc : c ∈ e.report.result) : c.toNat ≤ s.reads.length := by
  obtain ⟨hlength, hshows⟩ := List.forall₂_iff_get.mp h.shows
  obtain ⟨i, hi⟩ := List.get_of_mem he
  have hi' : i.val < ks.length := by rw [hlength]; exact i.isLt
  have hresult := hshows i.val hi' i.isLt
  rw [Fin.eta, hi] at hresult
  rw [hresult] at hc
  obtain ⟨g, -, rfl⟩ := List.mem_map.mp hc
  rw [UInt32.toNat_ofNat']
  refine Nat.le_trans (Nat.mod_le _ _) ?_
  refine Nat.le_trans (Signal.rises_le_length _ _ _) ?_
  exact Nat.le_trans (length_passedWords_le _) (List.length_take_le' _ _)

/-- Nor has a count its top bit set until there have been `2 ^ 31` reads. -/
theorem clear (h : History cc s ks) (hreads : s.reads.length < 2 ^ 31) {e : Emission}
    (he : e ∈ s.emitted) : ∀ c ∈ e.report.result, c < 0x80000000 := by
  intro c hc
  have hlimit : (0x80000000 : UInt32).toNat = 2 ^ 31 := rfl
  rw [UInt32.lt_iff_toNat_lt, hlimit]
  exact Nat.lt_of_le_of_lt (h.count_le he hc) hreads

end History

/-- A report in hand is one at most. -/
theorem Threads.length_settled_le (x : Threads) :
    (x.settled p config).emitted.length ≤ x.system.emitted.length + 1 := by
  unfold Threads.settled
  split
  · rw [System.emitted_afterReport, List.length_append]
    rfl
  · exact Nat.le_succ _

/-- In small steps, a report in hand has not been made yet. -/
theorem history_of_reachable (hstart : start rpi config cc = .ok (some s₀)) {x y : Threads}
    (hx : (Threads.machine p rpi config).Reachable (.start s₀) x)
    (hy : (Threads.machine p rpi config).Reachable x y) :
    (cc.addChannels config.activePins).getChannelsMask = .ok y.system.runner.m_gpio_channel_mask ∧
      x.system.reads <+: y.system.reads ∧
      ∃ ks, History (cc.addChannels config.activePins) y.system ks ∧
        ∀ k ∈ ks.drop (x.system.emitted.length + 1), x.system.reads.length ≤ k := by
  obtain ⟨-, hn, hrange⟩ := channels_of_start hstart
  obtain ⟨⟨t, ht, hfollows⟩, -⟩ := follows_of_reachable hstart hx
  obtain ⟨⟨u, hu, h⟩, -⟩ := (Threads.simulates p rpi config hn hrange).reachable hfollows hy
  obtain ⟨-, -, hemitted⟩ := inv_of_start p hstart
  have hnone : History (cc.addChannels config.activePins) s₀ [] := ⟨by simp, .nil, hemitted ▸ .nil⟩
  obtain ⟨hinv, -, ks, hks, -⟩ := hnone.run hn hrange (inv_of_start p hstart).1 ht
  rw [List.nil_append] at hks
  obtain ⟨hinv', hgrow, new, hnew, hle⟩ := hks.run hn hrange hinv hu
  have hmask : u.runner.m_gpio_channel_mask = y.system.runner.m_gpio_channel_mask := by rw [h.runner]
  have hlength : ks.length ≤ x.system.emitted.length + 1 := by
    rw [hks.shows.length_eq, hfollows.system]
    exact x.length_settled_le
  refine ⟨hmask ▸ hinv'.mask, ?_, (ks ++ new).take y.system.emitted.length, ⟨fun k hk => ?_, ?_, ?_⟩,
    fun k hk => ?_⟩
  · rw [← h.reads, ← hfollows.reads]
    exact hgrow
  · rw [← h.reads]
    exact hnew.reads k (List.mem_of_mem_take hk)
  · exact hnew.sorted.sublist (List.take_sublist _ _)
  · have hprefix : y.system.emitted <+: u.emitted := by
      rw [h.system]
      exact y.emitted_prefix
    have htake := List.forall₂_take y.system.emitted.length hnew.shows
    rw [← List.prefix_iff_eq_take.mp hprefix, h.reads, hmask] at htake
    exact htake
  · rw [List.drop_take, List.drop_append, List.drop_eq_nil_of_le hlength, List.nil_append] at hk
    rw [← hfollows.reads]
    exact hle k (List.mem_of_mem_drop (List.mem_of_mem_take hk))

/-- In small steps too, the words shown are what the loop passes on of the words read. -/
theorem shown_of_reachable (hstart : start rpi config cc = .ok (some s₀)) {x : Threads}
    (hx : (Threads.machine p rpi config).Reachable (.start s₀) x) :
    x.system.shown = passedWords x.system.runner.m_gpio_channel_mask x.system.reads := by
  obtain ⟨⟨t, -, h⟩, -⟩ := follows_of_reachable hstart hx
  have hmask : t.runner.m_gpio_channel_mask = x.system.runner.m_gpio_channel_mask := by rw [h.runner]
  rw [← h.shown, ← h.reads, ← hmask]
  exact h.inv.shown_eq_passed

/-- **The reports are those of the polling loop, in one order.** In every interleaving of the small steps
there is for each report displayed a number of reads, not more than there have been, such that the report
shows the counts of the polling loop stopped after so many reads, and the numbers do not go down from
report to report. Nothing is reported late: but for the one that may be in hand, the reports displayed
from a state on show the reads that there had been in it, or more. -/
theorem reports_linearize (p : Platform) (rpi : RPiInterface) (config : PulseCounterConfiguration)
    (cc : ConfiguredChannels) (s₀ : System) (hstart : start rpi config cc = .ok (some s₀))
    (x y : Threads) (hx : (Threads.machine p rpi config).Reachable (.start s₀) x)
    (hy : (Threads.machine p rpi config).Reachable x y) :
    ∃ ks : List Nat, (∀ k ∈ ks, k ≤ y.system.reads.length) ∧ ks.Pairwise (· ≤ ·) ∧
      List.Forall₂ (fun k e => PollAndAccumulateRunner.readCounts (cc.addChannels config.activePins)
        (y.system.reads.take k) = .ok e.report.result) ks y.system.emitted ∧
      ∀ k ∈ ks.drop (x.system.emitted.length + 1), x.system.reads.length ≤ k := by
  obtain ⟨-, hn, hrange⟩ := channels_of_start hstart
  obtain ⟨hmask, -, ks, hks, hfresh⟩ := history_of_reachable hstart hx hy
  refine ⟨ks, hks.reads, hks.sorted, hks.shows.imp fun k e hresult => ?_, hfresh⟩
  rw [readCounts_eq hn hrange hmask, hresult]

/-- The first call of a one-second report on one channel, and a pulse after it. -/
def SmallAction.pulseAfterReport : List SmallAction :=
  [.readFirst 0, .testRunning, .wake 1000] ++ report ++
    [.readNext 0x20000, .lockProcess, .processChannel, .unlockProcess]

/-- The calls after the pulse show it, the next report does too. -/
theorem reports_linearize_between :
    ∃ (s₀ : System) (x y : Threads),
      start (RPiInterfaceReal 7) { activePins := [11] } (.new (RPiInterfaceReal 7)) = .ok (some s₀) ∧
      x.system.reads.length = 2 ∧ y.system.emitted.map (fun e => e.report.result) = [[0], [1], [1]] ∧
      ∃ k l m, k ≤ l ∧ 2 ≤ m ∧ m ≤ y.system.reads.length ∧
        List.Forall₂ (fun k v => PollAndAccumulateRunner.readCounts
          ((ConfiguredChannels.new (RPiInterfaceReal 7)).addChannels [11]) (y.system.reads.take k) = .ok v)
          [k, l, m] [[0], [1], [1]] := by
  obtain ⟨s₀, y, hstart, hexec, hobserved⟩ := threads_of_schedule .saturating (RPiInterfaceReal 7)
    { activePins := [11] } (.new (RPiInterfaceReal 7))
    (SmallAction.pulseAfterReport ++ (SmallAction.report ++ .wake 2000 :: SmallAction.report))
    (fun y => y.system.emitted.map fun e => e.report.result) [[0], [1], [1]] (by decide +kernel)
  obtain ⟨s₀', x, hstart', hexec', hpulse⟩ := threads_of_schedule .saturating (RPiInterfaceReal 7)
    { activePins := [11] } (.new (RPiInterfaceReal 7)) SmallAction.pulseAfterReport
    (fun x => (x.system.reads.length, x.system.emitted.length)) (2, 1) (by decide +kernel)
  injection hpulse with hreads hlength
  rw [hstart] at hstart'
  injection hstart' with hstart'
  injection hstart' with hstart'
  subst hstart'
  rw [Machine.exec_append, hexec'] at hexec
  obtain ⟨ks, hle, hsorted, hshows, hfresh⟩ := reports_linearize _ _ _ _ s₀ hstart x y
    (.of_exec hexec') (.of_exec hexec)
  have hresults : List.Forall₂ (fun k v => PollAndAccumulateRunner.readCounts
      ((ConfiguredChannels.new (RPiInterfaceReal 7)).addChannels [11]) (y.system.reads.take k) = .ok v)
      ks (y.system.emitted.map fun e => e.report.result) := List.forall₂_map_right_iff.mpr hshows
  rw [hobserved] at hresults
  rw [hlength, hreads] at hfresh
  match ks, hle, hsorted, hresults, hfresh with
  | [k, l, m], hle, hsorted, hresults, hfresh =>
    refine ⟨s₀, x, y, hstart, hreads, hobserved, k, l, m, ?_, hfresh m (by simp), hle m (by simp),
      hresults⟩
    exact (List.pairwise_cons.mp hsorted).1 l (by simp)

/-- **Counts do not go down.** As long as the register has been read less than `2 ^ 32` times, the reports
displayed show, channel by channel, counts that never decrease from one report to a later one, and that
are not more than the reads. -/
theorem reports_never_decrease (p : Platform) (rpi : RPiInterface)
    (config : PulseCounterConfiguration) (cc : ConfiguredChannels) (s₀ : System)
    (hstart : start rpi config cc = .ok (some s₀)) (x : Threads)
    (hx : (Threads.machine p rpi config).Reachable (.start s₀) x)
    (hreads : x.system.reads.length < 2 ^ 32) :
    x.system.emitted.Pairwise (fun e e' => List.Forall₂ (· ≤ ·) e.report.result e'.report.result) ∧
      ∀ e ∈ x.system.emitted, ∀ c ∈ e.report.result, c.toNat ≤ x.system.reads.length := by
  obtain ⟨-, -, ks, hks, -⟩ := history_of_reachable hstart (.refl _ _) hx
  exact ⟨hks.pairwise_le hreads, fun e he c hc => hks.count_le he hc⟩

/-- The counts of that report, between which the pulse fell. -/
theorem reports_never_decrease_between :
    ∃ (s₀ : System) (x : Threads),
      start (RPiInterfaceReal 7) { activePins := [11] } (.new (RPiInterfaceReal 7)) = .ok (some s₀) ∧
      x.system.reads.length = 2 ∧
      x.system.emitted.map (fun e => e.report.result) = [[0], [1]] ∧
      x.system.emitted.Pairwise
        (fun e e' => List.Forall₂ (· ≤ ·) e.report.result e'.report.result) := by
  obtain ⟨s₀, x, hstart, hexec, hobserved⟩ := threads_of_schedule .saturating (RPiInterfaceReal 7)
    { activePins := [11] } (.new (RPiInterfaceReal 7))
    (SmallAction.pulseAfterReport ++ SmallAction.report)
    (fun x => (x.system.reads.length, x.system.emitted.map fun e => e.report.result))
    (2, [[0], [1]]) (by decide +kernel)
  injection hobserved with hreads hresults
  have hreach := Machine.Reachable.of_exec hexec
  exact ⟨s₀, x, hstart, hreads, hresults,
    (reports_never_decrease _ _ _ _ s₀ hstart x hreach (by rw [hreads]; decide)).1⟩

end PulseCounterMain

end PulseCounter
