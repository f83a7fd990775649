import PulseCounter.Verify.ReportHistory
import PulseCounter.Lib.Sampling

/-!
# Counted pulses

The register is a signal in time and the reads of a run are samples of it. A pin that is low in the first
read is reported with no more pulses than it has had, and with all of them exactly when its level changed at
most once from each read to the next (`pulses_counted_iff`). So a run whose reads are closer together than
the changes of the pins reports every pulse (`every_pulse_counted`).
-/

namespace PulseCounter

/-- The pulses of a pin from the first of the moments to the last: how often it goes high. -/
def pulses (register : Nat → UInt32) (g : Int32) (times : List Nat) : Nat :=
  Signal.risesBetween (bit g) register (times.headD 0) (times.getLastD 0)

/-- The level of the pin changes at most once from each of the moments to the next. -/
def Caught (register : Nat → UInt32) (g : Int32) (times : List Nat) : Prop :=
  times.IsChain fun t t' => Signal.switchesBetween (bit g) register t t' ≤ 1

section Polling

variable {cc : ConfiguredChannels} {mask : UInt32} {register : Nat → UInt32} {g : Int32}
  {times : List Nat}

/-- The polling loop on samples of the register. -/
theorem rises_passedWords (hrange : cc.InRange) (hmask : cc.getChannelsMask = .ok mask)
    (hg : g ∈ cc.gpios) (hsorted : times.IsChain (· ≤ ·))
    (hlow : ∀ t ∈ times.head?, bit g (register t) = false) :
    Signal.rises (bit g) 0 (passedWords mask (times.map register)) ≤ pulses register g times ∧
      (Signal.rises (bit g) 0 (passedWords mask (times.map register)) = pulses register g times ↔
        Caught register g times) := by
  cases times with
  | nil =>
    have hnone : pulses register g [] = 0 := Signal.risesBetween_self _ _ 0
    rw [hnone]
    exact ⟨Nat.le_refl 0, iff_of_true rfl .nil⟩
  | cons t times =>
    obtain ⟨mask', hmask', hbits⟩ := ConfiguredChannels.getChannelsMask_eq hrange
    rw [hmask] at hmask'
    injection hmask' with hmask'
    subst hmask'
    have hstart : highAtFirstChange cc (register t) (times.map register) g = false := by
      unfold highAtFirstChange
      rw [hlow t rfl, Bool.false_and]
    have hpolled : Signal.rises (bit g) 0 (passedWords mask ((t :: times).map register)) =
        Signal.rises (bit g) (register t) (times.map register) := by
      rw [List.map_cons, passedWords, rises_polled hbits hrange _ _ hg, hstart]
      rfl
    have hpulses : pulses register g (t :: times) =
        Signal.risesBetween (bit g) register t (times.getLastD t) := by
      unfold pulses
      rw [List.headD_cons, List.getLastD_cons]
    rw [hpolled, hpulses]
    exact ⟨Signal.rises_samples_le (bit g) register hsorted,
      Signal.rises_samples_eq_iff (bit g) register hsorted⟩

/-- The counts of the polling loop stopped after some samples. -/
theorem countsAfter_pulses (hrange : cc.InRange) (hmask : cc.getChannelsMask = .ok mask)
    (hsorted : times.IsChain (· ≤ ·)) (hround : times.length < 2 ^ 32)
    (hlow : ∀ t ∈ times.head?, ∀ g ∈ cc.gpios, bit g (register t) = false) :
    List.Forall₂ (fun g c => c.toNat ≤ pulses register g times ∧
        (c.toNat = pulses register g times ↔ Caught register g times))
      cc.gpios (countsAfter cc (passedWords mask (times.map register))) := by
  unfold countsAfter
  rw [List.forall₂_map_right_iff, List.forall₂_same]
  intro g hg
  have hrises := Signal.rises_le_length (bit g) 0 (passedWords mask (times.map register))
  have hlength := @length_passedWords_le mask (times.map register)
  rw [List.length_map] at hlength
  rw [UInt32.toNat_ofNat', Nat.mod_eq_of_lt (by omega)]
  exact rises_passedWords hrange hmask hg hsorted fun t ht => hlow t ht g hg

end Polling

namespace PulseCounterMain

/-- The counts of a report are of the samples before the `k`-th. -/
theorem reported_pulses {p : Platform} {rpi : RPiInterface} {config : PulseCounterConfiguration}
    {cc : ConfiguredChannels} {s₀ : System} (hstart : start rpi config cc = .ok (some s₀))
    {x y : Threads} (hx : (Threads.machine p rpi config).Reachable (.start s₀) x)
    (hy : (Threads.machine p rpi config).Reachable x y) {register : Nat → UInt32} {times : List Nat}
    (hreads : y.system.reads = times.map register) (hsorted : times.IsChain (· ≤ ·))
    (hround : times.length < 2 ^ 32)
    (hlow : ∀ t ∈ times.head?, ∀ g ∈ (cc.addChannels config.activePins).gpios,
      bit g (register t) = false) :
    ∃ ks : List Nat, (∀ k ∈ ks, k ≤ times.length) ∧ ks.Pairwise (· ≤ ·) ∧
      List.Forall₂ (fun k e => List.Forall₂ (fun g c =>
          c.toNat ≤ pulses register g (times.take k) ∧
            (c.toNat = pulses register g (times.take k) ↔ Caught register g (times.take k)))
        (cc.addChannels config.activePins).gpios e.report.result) ks y.system.emitted ∧
      ∀ k ∈ ks.drop (x.system.emitted.length + 1), x.system.reads.length ≤ k := by
  obtain ⟨-, hn, hrange⟩ := channels_of_start hstart
  obtain ⟨hmask, -, ks, hks, hfresh⟩ := history_of_reachable hstart hx hy
  have hlength : y.system.reads.length = times.length := by rw [hreads, List.length_map]
  refine ⟨ks, fun k hk => hlength ▸ hks.reads k hk, hks.sorted, hks.shows.imp fun k e hresult => ?_,
    hfresh⟩
  rw [hresult, hreads, ← List.map_take]
  refine countsAfter_pulses hrange hmask (hsorted.take k) ?_ fun t ht => hlow t ?_
  · exact Nat.lt_of_le_of_lt (List.length_take_le' k times) hround
  · cases times with
    | nil => rwa [List.take_nil] at ht
    | cons t' times =>
      cases k with
      | zero => cases ht
      | succ k => exact ht

/-- **No pulse is made up, and which are lost.** The reads of a run are samples of the register at moments
in order, less than `2 ^ 32` of them, and every configured pin is low in the first one. Then each report
displayed shows, channel by channel, no more than the pulses that the pin had up to one of the reads, and all
of these exactly when its level changed at most once from each read to the next. -/
theorem pulses_counted_iff (p : Platform) (rpi : RPiInterface) (config : PulseCounterConfiguration)
    (cc : ConfiguredChannels) (s₀ : System) (hstart : start rpi config cc = .ok (some s₀))
    (x : Threads) (hx : (Threads.machine p rpi config).Reachable (.start s₀) x)
    (register : Nat → UInt32) (times : List Nat) (hreads : x.system.reads = times.map register)
    (hsorted : times.IsChain (· ≤ ·)) (hround : times.length < 2 ^ 32)
    (hlow : ∀ t ∈ times.head?, ∀ g ∈ (cc.addChannels config.activePins).gpios,
      bit g (register t) = false) :
    ∀ e ∈ x.system.emitted, ∃ k ≤ times.length, List.Forall₂ (fun g c =>
        c.toNat ≤ pulses register g (times.take k) ∧
          (c.toNat = pulses register g (times.take k) ↔ Caught register g (times.take k)))
      (cc.addChannels config.activePins).gpios e.report.result := by
  obtain ⟨ks, hle, -, hcounted, -⟩ :=
    reported_pulses hstart (.refl _ _) hx hreads hsorted hround hlow
  intro e he
  obtain ⟨k, hk, hcounts⟩ := exists_of_forall₂ hcounted he
  exact ⟨k, hle k hk, hcounts⟩

/-- A short pulse on GPIO 17 and a lasting one. -/
def shortPulse (t : Nat) : UInt32 := if t = 2 ∨ 5 ≤ t then 0x20000 else 0

/-- The reads at 0 and 5 miss the short pulse. -/
theorem pulses_counted_iff_missed :
    ∃ (s₀ : System) (x : Threads),
      start (RPiInterfaceReal 7) { activePins := [11] } (.new (RPiInterfaceReal 7)) = .ok (some s₀) ∧
      x.system.reads = [0, 5].map shortPulse ∧
      x.system.emitted.map (fun e => e.report.result) = [[0], [1]] ∧ pulses shortPulse 17 [0, 5] = 2 ∧
      ∃ k ≤ 2, 1 ≤ pulses shortPulse 17 ([0, 5].take k) ∧
        (1 = pulses shortPulse 17 ([0, 5].take k) ↔ Caught shortPulse 17 ([0, 5].take k)) := by
  obtain ⟨s₀, x, hstart, hexec, hobserved⟩ := threads_of_schedule .saturating (RPiInterfaceReal 7)
    { activePins := [11] } (.new (RPiInterfaceReal 7))
    (SmallAction.pulseAfterReport ++ SmallAction.report)
    (fun x => (x.system.reads, x.system.emitted.map fun e => e.report.result))
    ([0, 0x20000], [[0], [1]]) (by decide +kernel)
  injection hobserved with hreads hresults
  have hgpios : ((ConfiguredChannels.new (RPiInterfaceReal 7)).addChannels [11]).gpios = [17] := by
    decide +kernel
  have hlow : ∀ t ∈ [0, 5].head?,
      ∀ g ∈ ((ConfiguredChannels.new (RPiInterfaceReal 7)).addChannels [11]).gpios,
      bit g (shortPulse t) = false := by
    rintro t ⟨⟩
    rw [hgpios]
    exact List.forall_mem_singleton.mpr (by decide)
  have hcounted := pulses_counted_iff .saturating (RPiInterfaceReal 7) { activePins := [11] } _ s₀ hstart
    x (.of_exec hexec) shortPulse [0, 5] (hreads.trans (by decide)) (by decide) (by decide) hlow
  refine ⟨s₀, x, hstart, hreads.trans (by decide), hresults, by decide +kernel, ?_⟩
  obtain ⟨e, he, hresult⟩ := List.mem_map.mp (hresults ▸ List.mem_cons_of_mem [0] List.mem_cons_self :
    [1] ∈ x.system.emitted.map fun e => e.report.result)
  obtain ⟨k, hk, hcounts⟩ := hcounted e he
  rw [hresult, hgpios, List.forall₂_cons] at hcounts
  exact ⟨k, hk, hcounts.1⟩

/-- **Every pulse is counted** when the reads, less than `2 ^ 32` of them, are no further apart than any two
changes of a configured pin, and these pins are low in the first one: the reports displayed show, one after
the other, exactly the pulses up to some reads, in order, and but for the one that may be in hand the reports
displayed from a state on show those up to the reads that there had been in it, or up to more. -/
theorem every_pulse_counted (p : Platform) (rpi : RPiInterface) (config : PulseCounterConfiguration)
    (cc : ConfiguredChannels) (s₀ : System) (hstart : start rpi config cc = .ok (some s₀))
    (x y : Threads) (hx : (Threads.machine p rpi config).Reachable (.start s₀) x)
    (hy : (Threads.machine p rpi config).Reachable x y) (register : Nat → UInt32) (times : List Nat)
    (hreads : y.system.reads = times.map register) (hround : times.length < 2 ^ 32)
    (hlow : ∀ t ∈ times.head?, ∀ g ∈ (cc.addChannels config.activePins).gpios,
      bit g (register t) = false)
    (T : Nat) (hclose : times.IsChain fun t t' => t ≤ t' ∧ t' ≤ t + T)
    (hdwells : ∀ g ∈ (cc.addChannels config.activePins).gpios, Signal.Dwells (bit g) register T) :
    ∃ ks : List Nat, (∀ k ∈ ks, k ≤ times.length) ∧ ks.Pairwise (· ≤ ·) ∧
      List.Forall₂ (fun k e => List.Forall₂ (fun g c => c.toNat = pulses register g (times.take k))
        (cc.addChannels config.activePins).gpios e.report.result) ks y.system.emitted ∧
      ∀ k ∈ ks.drop (x.system.emitted.length + 1), x.system.reads.length ≤ k := by
  have hsorted : times.IsChain (· ≤ ·) := hclose.imp fun t t' h => h.1
  have hcaught : ∀ g ∈ (cc.addChannels config.activePins).gpios, ∀ k,
      Caught register g (times.take k) := by
    intro g hg k
    refine (hclose.take k).imp fun t t' h => ?_
    exact Signal.switches_le_one_of_dwell (bit g) register (hdwells g hg) h.1 h.2
  obtain ⟨ks, hle, hordered, hcounted, hfresh⟩ :=
    reported_pulses hstart hx hy hreads hsorted hround hlow
  refine ⟨ks, hle, hordered, hcounted.imp fun k e hcounts => ?_, hfresh⟩
  rw [List.forall₂_iff_zip] at hcounts ⊢
  refine ⟨hcounts.1, fun {g c} hgc => ?_⟩
  exact (hcounts.2 hgc).2.mpr (hcaught g (List.of_mem_zip hgc).1 k)

/-- A square wave on GPIO 17. -/
def squareWave (t : Nat) : UInt32 := if t % 10 < 5 then 0 else 0x20000

/-- Reads that are five apart. -/
theorem every_pulse_counted_square :
    ∃ (s₀ : System) (x : Threads),
      start (RPiInterfaceReal 7) { activePins := [11] } (.new (RPiInterfaceReal 7)) = .ok (some s₀) ∧
      x.system.reads = [0, 5].map squareWave ∧ ∃ k l, k ≤ l ∧ l ≤ 2 ∧
        pulses squareWave 17 ([0, 5].take k) = 0 ∧ pulses squareWave 17 ([0, 5].take l) = 1 := by
  obtain ⟨s₀, x, hstart, hexec, hobserved⟩ := threads_of_schedule .saturating (RPiInterfaceReal 7)
    { activePins := [11] } (.new (RPiInterfaceReal 7))
    (SmallAction.pulseAfterReport ++ SmallAction.report)
    (fun x => (x.system.reads, x.system.emitted.map fun e => e.report.result))
    ([0, 0x20000], [[0], [1]]) (by decide +kernel)
  injection hobserved with hreads hresults
  have hgpios : ((ConfiguredChannels.new (RPiInterfaceReal 7)).addChannels [11]).gpios = [17] := by
    decide +kernel
  have hlevel : ∀ t, bit 17 (squareWave t) = decide (5 ≤ t % 10) := by
    intro t
    unfold squareWave
    split
    · next h =>
      rw [bit_zero, eq_comm, decide_eq_false_iff_not]
      omega
    · next h =>
      have hhigh : bit 17 0x20000 = true := by decide
      rw [hhigh, eq_comm, decide_eq_true_iff]
      omega
  have hdwells : Signal.Dwells (bit 17) squareWave 5 := by
    intro t t' hlt hchange hchange'
    simp only [hlevel, ne_eq, decide_eq_decide] at hchange hchange'
    omega
  have hlow : ∀ t ∈ [0, 5].head?,
      ∀ g ∈ ((ConfiguredChannels.new (RPiInterfaceReal 7)).addChannels [11]).gpios,
      bit g (squareWave t) = false := by
    rintro t ⟨⟩
    rw [hgpios]
    exact List.forall_mem_singleton.mpr (by decide)
  obtain ⟨ks, hle, hordered, hcounted, -⟩ := every_pulse_counted .saturating (RPiInterfaceReal 7)
    { activePins := [11] } _ s₀ hstart x x (.of_exec hexec) (.refl _ _) squareWave [0, 5]
    (hreads.trans (by decide)) (by decide) hlow 5 (by decide)
    (by rw [hgpios]; exact List.forall_mem_singleton.mpr hdwells)
  have hcounts : List.Forall₂ (fun k counts => List.Forall₂ (fun g (c : UInt32) =>
      c.toNat = pulses squareWave g ([0, 5].take k)) [17] counts) ks
      (x.system.emitted.map fun e => e.report.result) := by
    rw [← hgpios]
    exact List.forall₂_map_right_iff.mpr hcounted
  rw [hresults] at hcounts
  match ks, hle, hordered, hcounts with
  | [k, l], hle, hordered, .cons hk (.cons hl .nil) =>
    refine ⟨s₀, x, hstart, hreads.trans (by decide), k, l, ?_, hle l (by simp), ?_, ?_⟩
    · exact (List.pairwise_cons.mp hordered).1 l (by simp)
    · rw [List.forall₂_cons] at hk
      exact hk.1.symm
    · rw [List.forall₂_cons] at hl
      exact hl.1.symm

end PulseCounterMain

end PulseCounter
