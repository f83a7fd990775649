import PulseCounter.Verify.ReportHistory

/-!
# A run on the emulated board

Every read of the emulated register turns all levels over. So the polling loop passes every read on but the
first, and all channels count alike: half of the reads.
-/

namespace PulseCounter

namespace RPiInterfaceEmulated

variable {g : Int32}

/-- The word that the register has in a state of `toggle`. -/
def levels (toggle : Bool) : UInt32 := if toggle then 0xFFFFFFFF else 0

theorem readAll_succ (toggle : Bool) (n : Nat) :
    readAll toggle (n + 1) = levels (!toggle) :: readAll (!toggle) n := rfl

theorem bit_levels (hg : GpioBit g) (toggle : Bool) : bit g (levels toggle) = toggle := by
  have hones : (0xFFFFFFFF : UInt32).toBitVec = BitVec.allOnes 32 := by decide
  cases toggle with
  | false => exact bit_zero g
  | true =>
    unfold bit levels
    rw [if_pos rfl, hones, BitVec.getLsbD_allOnes, decide_eq_true_iff]
    exact hg.toNat.1

theorem take_readAll {k n : Nat} (h : k ≤ n) (toggle : Bool) :
    (readAll toggle n).take k = readAll toggle k := by
  induction k generalizing n toggle with
  | zero => rfl
  | succ k ih =>
    obtain ⟨m, rfl⟩ := Nat.exists_eq_add_of_lt h
    rw [show k + m + 1 = (k + m) + 1 from rfl, readAll_succ, readAll_succ, List.take_succ_cons,
      ih (Nat.le_add_right k m)]

/-- Every other read is a rise. -/
theorem rises_readAll (hg : GpioBit g) (toggle : Bool) (n : Nat) :
    Signal.rises (bit g) (levels toggle) (readAll toggle n) = (n + (!toggle).toNat) / 2 := by
  induction n generalizing toggle with
  | zero => cases toggle <;> rfl
  | succ n ih =>
    rw [readAll_succ, Signal.rises_cons, ih, bit_levels hg, bit_levels hg]
    cases toggle with
    | false =>
      simp only [Signal.edge, Bool.not_false, Bool.not_true, Bool.and_self, if_true, Bool.toNat_false,
        Bool.toNat_true]
      omega
    | true =>
      simp only [Signal.edge, Bool.not_true, Bool.not_false, Bool.and_self, Bool.false_eq_true, if_false,
        Bool.toNat_false, Bool.toNat_true]
      omega

end RPiInterfaceEmulated

open RPiInterfaceEmulated

section Polling

variable {cc : ConfiguredChannels} {mask : UInt32} (hrange : cc.InRange)

include hrange

/-- Every read but the first is passed on. -/
theorem passedWords_readAll (hn : cc.totalChannels ≠ 0) (hmask : cc.getChannelsMask = .ok mask)
    (toggle : Bool) (n : Nat) :
    passedWords mask (readAll toggle n) = ((readAll toggle n).drop 1).map (· &&& mask) := by
  obtain ⟨mask', hmask', hbits⟩ := ConfiguredChannels.getChannelsMask_eq hrange
  rw [hmask] at hmask'
  injection hmask' with hmask'
  subst hmask'
  obtain ⟨g, hg⟩ : ∃ g, g ∈ cc.gpios := by
    refine List.exists_mem_of_ne_nil _ fun hnil => hn ?_
    rw [← ConfiguredChannels.length_gpios, hnil]
    rfl
  have hne : ∀ b, levels (!b) &&& mask ≠ levels b &&& mask := by
    intro b
    rw [and_mask_ne_iff hbits hrange]
    refine ⟨g, hg, ?_⟩
    rw [bit_levels (hrange g hg), bit_levels (hrange g hg)]
    exact Bool.not_ne_self b
  have hchanges : ∀ n b, Signal.changes (levels b &&& mask) ((readAll b n).map (· &&& mask)) =
      (readAll b n).map (· &&& mask) := by
    intro n
    induction n with
    | zero => intro b; rfl
    | succ n ih =>
      intro b
      rw [readAll_succ, List.map_cons, Signal.changes_cons_of_ne (hne b), ih]
  cases n with
  | zero => rfl
  | succ n =>
    rw [readAll_succ, List.drop_succ_cons, List.drop_zero]
    exact hchanges n (!toggle)

/-- No channel is still high when a pin first changes, which is in the second read. -/
theorem highAtFirstChange_readAll {g : Int32} (hg : g ∈ cc.gpios) (toggle : Bool) (n : Nat) :
    highAtFirstChange cc (levels toggle) (readAll toggle n) g = false := by
  unfold highAtFirstChange firstChange
  rw [bit_levels (hrange g hg)]
  cases toggle with
  | false => rfl
  | true =>
    cases n with
    | zero => rfl
    | succ n =>
      have hchange : cc.gpios.any (fun g => bit g (levels false) != bit g (levels true)) = true := by
        refine List.any_eq_true.mpr ⟨g, hg, ?_⟩
        rw [bit_levels (hrange g hg), bit_levels (hrange g hg)]
        rfl
      rw [readAll_succ, Bool.not_true, List.find?_cons, hchange]
      exact bit_levels (hrange g hg) false

/-- The counts after so many reads are the same on all channels. -/
theorem countsAfter_readAll (hmask : cc.getChannelsMask = .ok mask) (toggle : Bool) (n : Nat) :
    countsAfter cc (passedWords mask (readAll toggle n)) =
      List.replicate cc.totalChannels (UInt32.ofNat ((n - 1 + toggle.toNat) / 2)) := by
  obtain ⟨mask', hmask', hbits⟩ := ConfiguredChannels.getChannelsMask_eq hrange
  rw [hmask] at hmask'
  injection hmask' with hmask'
  subst hmask'
  rw [← ConfiguredChannels.length_gpios, ← List.map_const', countsAfter]
  refine List.map_congr_left fun g hg => congrArg UInt32.ofNat ?_
  cases n with
  | zero => cases toggle <;> rfl
  | succ n =>
    rw [readAll_succ, passedWords, rises_polled hbits hrange _ _ hg,
      highAtFirstChange_readAll hrange hg, rises_readAll (hrange g hg), Bool.not_not]
    rfl

end Polling

namespace PulseCounterMain

/-- **A run on the emulated board**: whatever the interleaving, the polling thread hands every read but the
first to the decoder, and every report displayed has one number in all its columns, half of the reads after
the first that it shows, modulo `2 ^ 32`, and rounded up if the levels were low in the first one. The reads
that a report shows never get fewer from report to report, and but for the report in hand they are no fewer
than there had been in an earlier state. -/
theorem emulated_reports (p : Platform) (localStart : Nat) (config : PulseCounterConfiguration)
    (cc : ConfiguredChannels) (s₀ : System)
    (hstart : start (RPiInterfaceEmulated localStart) config cc = .ok (some s₀)) (x y : Threads)
    (hx : (Threads.machine p (RPiInterfaceEmulated localStart) config).Reachable (.start s₀) x)
    (hy : (Threads.machine p (RPiInterfaceEmulated localStart) config).Reachable x y)
    (toggle : Bool) (hreads : y.system.reads = readAll toggle y.system.reads.length) :
    y.system.shown =
        (y.system.reads.drop 1).map (· &&& y.system.runner.m_gpio_channel_mask) ∧
      ∃ ks : List Nat, (∀ k ∈ ks, k ≤ y.system.reads.length) ∧ ks.Pairwise (· ≤ ·) ∧
        List.Forall₂ (fun k e => e.report.result =
          List.replicate (cc.addChannels config.activePins).totalChannels
            (UInt32.ofNat ((k - 1 + toggle.toNat) / 2))) ks y.system.emitted ∧
        ∀ k ∈ ks.drop (x.system.emitted.length + 1), x.system.reads.length ≤ k := by
  obtain ⟨-, hn, hrange⟩ := channels_of_start hstart
  obtain ⟨hmask, -, ks, hks, hfresh⟩ := history_of_reachable hstart hx hy
  constructor
  · rw [shown_of_reachable hstart (hx.trans hy), hreads]
    exact passedWords_readAll hrange hn hmask toggle _
  · refine ⟨ks, hks.reads, hks.sorted, ?_, hfresh⟩
    have hshows := hks.shows
    rw [List.forall₂_iff_get] at hshows ⊢
    obtain ⟨hlength, hshows⟩ := hshows
    refine ⟨hlength, fun i hi hi' => ?_⟩
    rw [hshows i hi hi', hreads, take_readAll (hks.reads _ (List.get_mem _ _)),
      countsAfter_readAll hrange hmask]

/-- Two pins and four reads, from the first state of the emulation. -/
theorem emulated_reports_default :
    ∃ (s₀ : System) (x : Threads) (k : Nat),
      start (RPiInterfaceEmulated 0) { activePins := [11, 12] } (.new (RPiInterfaceEmulated 0)) =
        .ok (some s₀) ∧
      x.system.reads = readAll false 4 ∧ x.system.emitted.map (fun e => e.report.result) = [[1, 1]] ∧
      k ≤ 4 ∧ ([1, 1] : List UInt32) = List.replicate 2 (UInt32.ofNat ((k - 1) / 2)) := by
  obtain ⟨s₀, x, hstart, hexec, hobserved⟩ := threads_of_schedule .saturating (RPiInterfaceEmulated 0)
    { activePins := [11, 12] } (.new (RPiInterfaceEmulated 0))
    ([.readFirst 0xFFFFFFFF, .testRunning, .readNext 0, .lockProcess, .processChannel, .processChannel,
      .unlockProcess, .testRunning, .readNext 0xFFFFFFFF, .lockProcess, .processChannel, .processChannel,
      .unlockProcess, .testRunning, .readNext 0, .lockProcess, .processChannel, .processChannel,
      .unlockProcess, .wake 1000, .clearLocal, .lockGetResult, .copyChannel, .copyChannel,
      .unlockGetResult true, .display])
    (fun x => (x.system.reads, x.system.emitted.map fun e => e.report.result))
    (readAll false 4, [[1, 1]]) (by decide +kernel)
  injection hobserved with hreads hresults
  obtain ⟨-, ks, hle, -, hcounts, -⟩ := emulated_reports _ 0 _ _ s₀ hstart x x (.of_exec hexec)
    (.refl _ _) false (by rw [hreads]; rfl)
  have hchannels : ((ConfiguredChannels.new (RPiInterfaceEmulated 0)).addChannels [11, 12]).totalChannels =
      2 := by decide +kernel
  have hcounts : List.Forall₂ (fun k counts => counts = List.replicate 2 (UInt32.ofNat ((k - 1) / 2))) ks
      (x.system.emitted.map fun e => e.report.result) := by
    rw [← hchannels]
    exact List.forall₂_map_right_iff.mpr hcounts
  rw [hresults] at hcounts
  match ks, hle, hcounts with
  | [k], hle, .cons hk .nil =>
    refine ⟨s₀, x, k, hstart, hreads, hresults, ?_, hk⟩
    have hlast := hle k (by simp)
    rw [hreads] at hlast
    exact hlast

end PulseCounterMain

end PulseCounter
