import PulseCounter.DecodeGpioRegsAndAccumulate

/-!
# The decoder over whole histories

A decoder that was built and shown the words `ws` has seen `ws` (`Saw`): each count is the number of
rises of its pin in `ws`, from an all-low word before the first, modulo `2 ^ 32`, and the remembered
levels are those of the last word. One more word keeps it so (`Saw.process`), and with it any number
of words (`Saw.processAll`).
-/

namespace PulseCounter

/-- The counts of a decoder that was shown the words `ws`. -/
def countsAfter (cc : ConfiguredChannels) (ws : List UInt32) : List UInt32 :=
  cc.gpios.map fun g => UInt32.ofNat (Signal.rises (bit g) 0 ws)

/-- Some configured pin is low in the first word and high in the second. -/
def someRise (cc : ConfiguredChannels) (s : UInt32 × UInt32) : Bool :=
  cc.gpios.any fun g => !bit g s.1 && bit g s.2

theorem length_countsAfter (cc : ConfiguredChannels) (ws : List UInt32) :
    (countsAfter cc ws).length = cc.totalChannels := by
  rw [countsAfter, List.length_map, ConfiguredChannels.length_gpios]

theorem getElem?_countsAfter {cc : ConfiguredChannels} {i : Nat} {g : Int32}
    (hg : cc.gpios[i]? = some g) (ws : List UInt32) :
    (countsAfter cc ws)[i]? = some (UInt32.ofNat (Signal.rises (bit g) 0 ws)) := by
  rw [countsAfter, List.getElem?_map, hg]
  rfl

namespace DecodeGpioRegsAndAccumulate

/-- The decoder of the channels `cc` after the words `ws`. -/
structure Saw (cc : ConfiguredChannels) (ws : List UInt32) (d : DecodeGpioRegsAndAccumulate) :
    Prop where
  channels : d.m_configured_channels = cc
  tallies : Tallies d (fun g => Signal.rises (bit g) 0 ws) (fun g => bit g (ws.getLastD 0))

namespace Saw

variable {cc : ConfiguredChannels} {ws : List UInt32} {d : DecodeGpioRegsAndAccumulate}

theorem accumulation (h : Saw cc ws d) : d.m_gpioPinAccumulation = countsAfter cc ws := by
  obtain ⟨rfl, htallies⟩ := h
  exact htallies.accumulation

theorem of_new (h : new cc = .ok d) : Saw cc [] d := by
  obtain ⟨hcc, htallies⟩ := new_tallies h
  refine ⟨hcc, ?_⟩
  simpa using htallies

/-- Calls of `getResult` do not disturb the history. -/
theorem of_local (h : Saw cc ws d) (v : List UInt32) :
    Saw cc ws { d with m_gpioPinAccumulationLocal := v } :=
  ⟨h.channels, h.tallies.accumulation, h.tallies.last⟩

/-- A decoder that tallies the edges of one more word has seen it. -/
theorem concat {w : UInt32} (hcc : d.m_configured_channels = cc)
    (h : Tallies d
      (fun g => Signal.rises (bit g) 0 ws + Signal.edge (bit g (ws.getLastD 0)) (bit g w))
      (fun g => bit g w)) : Saw cc (ws ++ [w]) d := by
  refine ⟨hcc, ?_⟩
  have hlast : (ws ++ [w]).getLastD 0 = w := by simp
  simp only [Signal.rises_concat, hlast]
  exact h

/-- One more word. -/
theorem process (hrange : cc.InRange) (h : Saw cc ws d) (w : UInt32) :
    ∃ d', d.process w = .ok (d', someRise cc (ws.getLastD 0, w)) ∧ Saw cc (ws ++ [w]) d' ∧
      d'.m_gpioPinAccumulationLocal = d.m_gpioPinAccumulationLocal := by
  obtain ⟨rfl, htallies⟩ := h
  obtain ⟨d', hrun, hcc, hlocal, htallies'⟩ := process_tallies hrange htallies w
  exact ⟨d', hrun, .concat hcc htallies', hlocal⟩

/-- Any number of further words. -/
theorem processAll (hrange : cc.InRange) (h : Saw cc ws d) (us : List UInt32) :
    ∃ d', d.processAll us = .ok (d', (Signal.steps (ws.getLastD 0) us).map (someRise cc)) ∧
      Saw cc (ws ++ us) d' := by
  induction us generalizing ws d with
  | nil => exact ⟨d, rfl, by simpa using h⟩
  | cons u us ih =>
    obtain ⟨d₁, hstep, h₁, -⟩ := h.process hrange u
    obtain ⟨d₂, hrun, h₂⟩ := ih h₁
    have hlast : (ws ++ [u]).getLastD 0 = u := by simp
    rw [hlast] at hrun
    refine ⟨d₂, ?_, ?_⟩
    · unfold DecodeGpioRegsAndAccumulate.processAll
      rw [hstep]
      simp only [bind, Except.bind]
      rw [hrun]
      rfl
    · simpa using h₂

end Saw

/-- **The decoder over whole histories.** No call of `process` on any sequence of words faults;
afterwards `getResult` has an entry for every channel, the number of rises of its pin modulo
`2 ^ 32`; and each call returned whether some configured pin rose there. -/
theorem decodes_history (cc : ConfiguredChannels) (hn : cc.totalChannels ≠ 0)
    (hrange : cc.InRange) (ws : List UInt32) :
    ∃ d₀ d d' flags counts,
      new cc = .ok d₀ ∧ d₀.processAll ws = .ok (d, flags) ∧ d.getResult = .ok (d', counts) ∧
      counts.length = cc.totalChannels ∧
      (∀ (i : Nat) (g : Int32), cc.gpios[i]? = some g →
        counts[i]? = some (UInt32.ofNat (Signal.rises (bit g) 0 ws))) ∧
      flags = (Signal.steps 0 ws).map (someRise cc) := by
  obtain ⟨d₀, hnew⟩ := new_eq_ok hn
  obtain ⟨d, hrun, hsaw⟩ := (Saw.of_new hnew).processAll hrange ws
  refine ⟨d₀, d, _, _, _, hnew, hrun, d.getResult_eq, ?_, ?_, rfl⟩
  · rw [hsaw.accumulation]
    exact length_countsAfter cc _
  · intro i g hg
    rw [hsaw.accumulation]
    exact getElem?_countsAfter hg _

/-- Two channels on one pin and one on another, over three words. -/
theorem decodes_history_shared_pin :
    let cc := (ConfiguredChannels.new (RPiInterfaceEmulated 0)).addChannels [11, 12, 11]
    ∃ d₀ d d' flags counts,
      new cc = .ok d₀ ∧ d₀.processAll [0x20000, 0x40000, 0x20000] = .ok (d, flags) ∧
      d.getResult = .ok (d', counts) ∧ counts.length = cc.totalChannels ∧
      (∀ (i : Nat) (g : Int32), cc.gpios[i]? = some g → counts[i]? =
        some (UInt32.ofNat (Signal.rises (bit g) 0 [0x20000, 0x40000, 0x20000]))) ∧
      flags = (Signal.steps 0 [0x20000, 0x40000, 0x20000]).map (someRise cc) :=
  decodes_history _ (by decide) (by decide) _

end DecodeGpioRegsAndAccumulate

end PulseCounter
