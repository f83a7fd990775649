import PulseCounter.Verify.ReportHistory

/-!
# Pins do not disturb one another

The loop shows the decoder the words in which some configured pin changes, so that every pin decides together
with the others which words those are. Between two runs that read the same words but have other pins besides,
the count of a pin differs by one at most, and it does not differ at all when the pin is low in the first
read (`counts_independent`).
-/

namespace PulseCounter

namespace PulseCounterMain

variable {p : Platform} {rpi : RPiInterface} {config : PulseCounterConfiguration}
  {cc : ConfiguredChannels} {s₀ : System}

/-- While the polling thread is not at work on a word, the decoder holds the counts of the words read. -/
theorem counts_of_returned (hstart : start rpi config cc = .ok (some s₀)) {x : Threads}
    (hx : (Threads.machine p rpi config).Reachable (.start s₀) x) (hreturned : x.process = .returned) :
    x.system.counts = countsAfter (cc.addChannels config.activePins)
      (passedWords x.system.runner.m_gpio_channel_mask x.system.reads) := by
  obtain ⟨⟨t, -, h⟩, -⟩ := follows_of_reachable hstart hx
  have hprocess := h.process
  rw [hreturned] at hprocess
  rw [← shown_of_reachable hstart hx]
  exact hprocess.2.accumulation

/-- The count of a channel: the rises of its pin between the reads, and one more if the pin was high from
the first read to the first change of any pin. -/
theorem count_of_returned (hstart : start rpi config cc = .ok (some s₀)) {x : Threads}
    (hx : (Threads.machine p rpi config).Reachable (.start s₀) x) (hreturned : x.process = .returned)
    {first : UInt32} {words : List UInt32} (hreads : x.system.reads = first :: words) {i : Nat} {g : Int32}
    (hg : (cc.addChannels config.activePins).gpios[i]? = some g) :
    x.system.counts[i]? = some (UInt32.ofNat (Signal.rises (bit g) first words +
      if highAtFirstChange (cc.addChannels config.activePins) first words g then 1 else 0)) := by
  obtain ⟨-, -, hrange⟩ := channels_of_start hstart
  obtain ⟨hmask, -⟩ := history_of_reachable hstart (.refl _ _) hx
  obtain ⟨mask, hmask', hbits⟩ := ConfiguredChannels.getChannelsMask_eq hrange
  rw [hmask] at hmask'
  injection hmask' with hmask'
  rw [counts_of_returned hstart hx hreturned, getElem?_countsAfter hg, hreads, hmask', passedWords,
    rises_polled hbits hrange first words (List.mem_of_getElem? hg)]

/-- **Pins do not disturb one another.** Two runs, on any boards and with any pins, have read the same
words, and no call of `process` is under way in them. Where they have a pin in common, its counts are equal
exactly when in both the pin was still high, or in neither, when one of the pins first changed; they differ by
one at most, and they are equal if the pin was low in the first read. -/
theorem counts_independent (p p' : Platform) (rpi rpi' : RPiInterface)
    (config config' : PulseCounterConfiguration) (cc cc' : ConfiguredChannels) (s₀ s₀' : System)
    (hstart : start rpi config cc = .ok (some s₀)) (hstart' : start rpi' config' cc' = .ok (some s₀'))
    (x x' : Threads) (hx : (Threads.machine p rpi config).Reachable (.start s₀) x)
    (hx' : (Threads.machine p' rpi' config').Reachable (.start s₀') x')
    (hreturned : x.process = .returned) (hreturned' : x'.process = .returned)
    (first : UInt32) (words : List UInt32) (hreads : x.system.reads = first :: words)
    (hreads' : x'.system.reads = first :: words) (i i' : Nat) (g : Int32)
    (hg : (cc.addChannels config.activePins).gpios[i]? = some g)
    (hg' : (cc'.addChannels config'.activePins).gpios[i']? = some g) :
    ∃ c c', x.system.counts[i]? = some c ∧ x'.system.counts[i']? = some c' ∧
      (c = c' ↔ highAtFirstChange (cc.addChannels config.activePins) first words g =
        highAtFirstChange (cc'.addChannels config'.activePins) first words g) ∧
      (c = c' ∨ c = c' + 1 ∨ c' = c + 1) ∧ (bit g first = false → c = c') := by
  have hcount := count_of_returned hstart hx hreturned hreads hg
  have hcount' := count_of_returned hstart' hx' hreturned' hreads' hg'
  have hnot_high : ∀ channels, bit g first = false → highAtFirstChange channels first words g = false := by
    intro channels hlow
    unfold highAtFirstChange
    rw [hlow, Bool.false_and]
  refine ⟨_, _, hcount, hcount', ?_, ?_, fun hlow => by rw [hnot_high _ hlow, hnot_high _ hlow]⟩
  -- by whether each run counted a rise that it did not see
  all_goals
    cases highAtFirstChange (cc.addChannels config.activePins) first words g <;>
      cases highAtFirstChange (cc'.addChannels config'.activePins) first words g
  · simp
  · simp
  · simp
  · simp
  · exact .inl rfl
  · exact .inr (.inr (UInt32.ofNat_add _ 1))
  · exact .inr (.inl (UInt32.ofNat_add _ 1))
  · exact .inl rfl

/-- Pin 11 is high in the first read and low in the second: pin 12, where it is there too, changes before
the first comes down. -/
theorem counts_independent_pin :
    ∃ (s₀ s₀' : System) (x x' : Threads),
      start (RPiInterfaceReal 7) { activePins := [11] } (.new (RPiInterfaceReal 7)) = .ok (some s₀) ∧
      start (RPiInterfaceReal 7) { activePins := [11, 12] } (.new (RPiInterfaceReal 7)) =
        .ok (some s₀') ∧
      x.system.reads = x'.system.reads ∧ ∃ c c', x.system.counts[0]? = some c ∧
        x'.system.counts[0]? = some c' ∧ c ≠ c' ∧ (c = c' ∨ c = c' + 1 ∨ c' = c + 1) := by
  obtain ⟨s₀, x, hstart, hexec, hobserved⟩ := threads_of_schedule .saturating (RPiInterfaceReal 7)
    { activePins := [11] } (.new (RPiInterfaceReal 7))
    [.readFirst 0x20000, .testRunning, .readNext 0x60000, .testRunning, .readNext 0, .lockProcess,
      .processChannel, .unlockProcess]
    (fun x => (x.process, x.system.reads)) (.returned, [0x20000, 0x60000, 0]) (by decide +kernel)
  obtain ⟨s₀', x', hstart', hexec', hobserved'⟩ := threads_of_schedule .saturating (RPiInterfaceReal 7)
    { activePins := [11, 12] } (.new (RPiInterfaceReal 7))
    [.readFirst 0x20000, .testRunning, .readNext 0x60000, .lockProcess, .processChannel, .processChannel,
      .unlockProcess, .testRunning, .readNext 0, .lockProcess, .processChannel, .processChannel,
      .unlockProcess]
    (fun x => (x.process, x.system.reads)) (.returned, [0x20000, 0x60000, 0]) (by decide +kernel)
  injection hobserved with hreturned hreads
  injection hobserved' with hreturned' hreads'
  obtain ⟨c, c', hc, hc', hiff, hclose, -⟩ := counts_independent _ _ _ _ _ _ _ _ s₀ s₀' hstart hstart' x x'
    (.of_exec hexec) (.of_exec hexec') hreturned hreturned' _ _ hreads hreads' 0 0 17 (by decide +kernel)
    (by decide +kernel)
  refine ⟨s₀, s₀', x, x', hstart, hstart', hreads.trans hreads'.symm, c, c', hc, hc', fun heq => ?_, hclose⟩
  exact absurd (hiff.mp heq) (by decide +kernel)

end PulseCounterMain

end PulseCounter
