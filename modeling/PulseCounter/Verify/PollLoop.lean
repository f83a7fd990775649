import PulseCounter.PollAndAccumulateRunner
import PulseCounter.Verify.Decoder

/-!
# What the polling loop counts

The loop shows the decoder the changes of the masked words, so the decoder has seen exactly those
(`pollUntilStopped_saw`). Against the rises between consecutive reads two memories have to be lined
up: the loop starts from the read before it, the decoder from an all-low word. They disagree about a
pin that is high in the first read, and the disagreement is counted when the first change the
decoder is shown has the pin still high (`rises_polled`). That is one count per pin at most, and none
after the first change.
-/

namespace PulseCounter

/-! ## Masked words -/

section Masked

variable {cc : ConfiguredChannels} {mask : UInt32}
  (hmask : ∀ b, GpioBit b → (bit b mask = true ↔ b ∈ cc.gpios))

include hmask

/-- A configured pin is not touched by the mask. -/
theorem bit_and_mask (hrange : cc.InRange) {g : Int32} (hg : g ∈ cc.gpios) (w : UInt32) :
    bit g (w &&& mask) = bit g w := by
  rw [bit_and, (hmask g (hrange g hg)).mpr hg, Bool.and_true]

/-- Masked words differ exactly when some configured pin differs. -/
theorem and_mask_ne_iff (hrange : cc.InRange) (v w : UInt32) :
    v &&& mask ≠ w &&& mask ↔ ∃ g ∈ cc.gpios, bit g v ≠ bit g w := by
  constructor
  · intro hne
    by_contra hall
    push Not at hall
    refine hne (eq_of_bit fun g hg => ?_)
    rw [bit_and, bit_and]
    cases hm : bit g mask with
    | false => rw [Bool.and_false, Bool.and_false]
    | true => rw [hall g ((hmask g hg).mp hm)]
  · rintro ⟨g, hg, hne⟩ heq
    apply hne
    rw [← bit_and_mask hmask hrange hg v, ← bit_and_mask hmask hrange hg w, heq]

end Masked

/-- The first of the words that differs from the first read on a configured pin. -/
def firstChange (cc : ConfiguredChannels) (first : UInt32) (words : List UInt32) : Option UInt32 :=
  words.find? fun w => cc.gpios.any fun g => bit g w != bit g first

/-- The pin is high in the first read and still high when a configured pin first changes. -/
def highAtFirstChange (cc : ConfiguredChannels) (first : UInt32) (words : List UInt32)
    (g : Int32) : Bool :=
  bit g first && (firstChange cc first words).any (bit g)

/-- The words the loop passes on: the masked reads that differ from the masked read before them. -/
def changedWords (mask first : UInt32) (words : List UInt32) : List UInt32 :=
  Signal.changes (first &&& mask) (words.map (· &&& mask))

section Changed

variable {mask first word : UInt32} {words : List UInt32}

/-- A further read that is no change is not passed on. -/
theorem changedWords_concat_of_eq (h : word &&& mask = words.getLastD first &&& mask) :
    changedWords mask first (words ++ [word]) = changedWords mask first words := by
  have hmap : (words.map (· &&& mask)).getLastD (first &&& mask) = words.getLastD first &&& mask :=
    List.getLastD_map
  unfold changedWords
  rw [List.map_append, Signal.changes_append, hmap, List.map_singleton, h, Signal.changes_cons_self,
    Signal.changes_nil, List.append_nil]

/-- A further read that is a change is passed on. -/
theorem changedWords_concat_of_ne (h : word &&& mask ≠ words.getLastD first &&& mask) :
    changedWords mask first (words ++ [word]) = changedWords mask first words ++ [word &&& mask] := by
  have hmap : (words.map (· &&& mask)).getLastD (first &&& mask) = words.getLastD first &&& mask :=
    List.getLastD_map
  unfold changedWords
  rw [List.map_append, Signal.changes_append, hmap, List.map_singleton, Signal.changes_cons_of_ne h,
    Signal.changes_nil]

end Changed

section Counting

variable {cc : ConfiguredChannels} {mask : UInt32}
  (hmask : ∀ b, GpioBit b → (bit b mask = true ↔ b ∈ cc.gpios)) (hrange : cc.InRange)
  (first : UInt32) (words : List UInt32)

include hmask hrange

theorem head?_changedWords :
    (changedWords mask first words).head? = (firstChange cc first words).map (· &&& mask) := by
  unfold changedWords firstChange
  rw [Signal.head?_changes, List.find?_map]
  refine congrArg (fun p => (words.find? p).map (· &&& mask)) (funext fun w => ?_)
  rw [Bool.eq_iff_iff, Function.comp_apply, decide_eq_true_iff, and_mask_ne_iff hmask hrange,
    List.any_eq_true]
  simp only [bne_iff_ne]

/-- **What the decoder counts for a pin**: the rises between consecutive reads, and one more for a pin
that was high from the first read to the first change. -/
theorem rises_polled {g : Int32} (hg : g ∈ cc.gpios) :
    Signal.rises (bit g) 0 (changedWords mask first words) =
      Signal.rises (bit g) first words + if highAtFirstChange cc first words g then 1 else 0 := by
  have hbit := bit_and_mask hmask hrange hg
  have hhead : (changedWords mask first words).head?.any (bit g) =
      (firstChange cc first words).any (bit g) := by
    rw [head?_changedWords hmask hrange]
    cases firstChange cc first words with
    | none => rfl
    | some w => exact hbit w
  rw [Signal.rises_of_low _ (bit_zero g) (first &&& mask), hhead, hbit first]
  congr 1
  have hmap := Signal.rises_map (bit g) (· &&& mask) first words
  simp only [hbit] at hmap
  rw [changedWords, Signal.rises_changes, hmap]

/-- A pin that is low in the last read is low in the last word the decoder was shown. -/
theorem bit_getLastD_changedWords {g : Int32} (hg : g ∈ cc.gpios)
    (hlow : bit g (words.getLastD first) = false) :
    bit g ((changedWords mask first words).getLastD 0) = false := by
  have hlast := Signal.getLastD_changes (first &&& mask) (words.map (· &&& mask))
  rw [List.getLastD_map] at hlast
  change (changedWords mask first words).getLastD (first &&& mask) = _ at hlast
  cases hchanged : changedWords mask first words with
  | nil => exact bit_zero g
  | cons w ws =>
    rw [hchanged, List.getLastD_cons] at hlast
    rw [List.getLastD_cons, hlast, bit_and_mask hmask hrange hg, hlow]

/-- **No rise is missed**: a pin that is low in the last read and high in the next is counted. -/
theorem rises_polled_concat {g : Int32} (hg : g ∈ cc.gpios) {word : UInt32}
    (hlow : bit g (words.getLastD first) = false) (hhigh : bit g word = true) :
    Signal.rises (bit g) 0 (changedWords mask first (words ++ [word])) =
      Signal.rises (bit g) 0 (changedWords mask first words) + 1 := by
  have hne : word &&& mask ≠ words.getLastD first &&& mask := by
    rw [and_mask_ne_iff hmask hrange]
    refine ⟨g, hg, ?_⟩
    rw [hlow, hhigh]
    decide
  rw [changedWords_concat_of_ne hne, Signal.rises_concat,
    bit_getLastD_changedWords hmask hrange first words hg hlow, bit_and_mask hmask hrange hg, hhigh]
  rfl

end Counting

/-! ## The loop as a whole -/

section Polling

open PollAndAccumulateRunner DecodeGpioRegsAndAccumulate

variable {cc : ConfiguredChannels} (hn : cc.totalChannels ≠ 0) (hrange : cc.InRange)

include hn hrange

/-- The run to its end never faults, and its decoder is a fresh one shown the changed words. -/
theorem pollUntilStopped_eq {mask : UInt32} (hmask : cc.getChannelsMask = .ok mask)
    (first : UInt32) (words : List UInt32) :
    ∃ r d₀ flags, pollUntilStopped cc first words = .ok r ∧
      DecodeGpioRegsAndAccumulate.new cc = .ok d₀ ∧
      d₀.processAll (changedWords mask first words) = .ok (r.m_decodeAndAccummulate, flags) ∧
      Saw cc (changedWords mask first words) r.m_decodeAndAccummulate := by
  obtain ⟨d₀, hnew⟩ := new_eq_ok hn
  obtain ⟨d, hrun, hsaw⟩ := (Saw.of_new hnew).processAll hrange (changedWords mask first words)
  refine ⟨⟨d, false, mask⟩, d₀, _, ?_, hnew, hrun, hsaw⟩
  unfold pollUntilStopped PollAndAccumulateRunner.new PollAndAccumulateRunner.run
  simp only [hmask, hnew, bind, Except.bind, pure, Except.pure, loop_eq]
  unfold changedWords at hrun
  rw [hrun]
  rfl

theorem pollCounts_eq {mask : UInt32} (hmask : cc.getChannelsMask = .ok mask)
    (first : UInt32) (words : List UInt32) :
    pollCounts cc first words = .ok (countsAfter cc (changedWords mask first words)) := by
  obtain ⟨r, d₀, flags, hpoll, -, -, hsaw⟩ := pollUntilStopped_eq hn hrange hmask first words
  unfold pollCounts PollAndAccumulateRunner.getResult
  rw [hpoll]
  simp only [bind, Except.bind, getResult_eq, pure, Except.pure, hsaw.accumulation]

end Polling

/-! ## Counts and rising edges -/

/-- **Pulse counts and rising edges.** When the loop has exited, the count of a channel is the number
of rises of its pin between consecutive reads, modulo `2 ^ 32`, exactly when its pin was not high
from the read before the loop up to the first change of a configured pin. -/
theorem pollCounts_rises_iff (cc : ConfiguredChannels) (hn : cc.totalChannels ≠ 0)
    (hrange : cc.InRange) (first : UInt32) (words : List UInt32) :
    ∃ counts, PollAndAccumulateRunner.pollCounts cc first words = .ok counts ∧
      counts.length = cc.totalChannels ∧
      ∀ (i : Nat) (g : Int32), cc.gpios[i]? = some g →
        (counts[i]? = some (UInt32.ofNat (Signal.rises (bit g) first words)) ↔
          highAtFirstChange cc first words g = false) := by
  obtain ⟨mask, hmask, hbits⟩ := ConfiguredChannels.getChannelsMask_eq hrange
  refine ⟨_, pollCounts_eq hn hrange hmask first words, length_countsAfter cc _, ?_⟩
  intro i g hg
  have hmem : g ∈ cc.gpios := List.mem_of_getElem? hg
  rw [getElem?_countsAfter hg, rises_polled hbits hrange first words hmem, Option.some.injEq]
  cases highAtFirstChange cc first words g with
  | false => simp
  | true => simp

/-- Two channels, the first high all along: it is counted once when the second one rises. -/
theorem pollCounts_rises_iff_two :
    let cc := (ConfiguredChannels.new (RPiInterfaceEmulated 0)).addChannels [11, 12]
    ∃ counts, PollAndAccumulateRunner.pollCounts cc 0x20000 [0x60000] = .ok counts ∧
      counts.length = cc.totalChannels ∧
      ∀ (i : Nat) (g : Int32), cc.gpios[i]? = some g →
        (counts[i]? = some (UInt32.ofNat (Signal.rises (bit g) 0x20000 [0x60000])) ↔
          highAtFirstChange cc 0x20000 [0x60000] g = false) :=
  pollCounts_rises_iff _ (by decide) (by decide) _ _

/-- The counts are not the rising edges in general: there the pin that stays high has count one. -/
theorem pollCounts_ne_rises :
    ¬∀ (cc : ConfiguredChannels) (first : UInt32) (words counts : List UInt32),
      cc.InRange → PollAndAccumulateRunner.pollCounts cc first words = .ok counts →
      ∀ (i : Nat) (g : Int32), cc.gpios[i]? = some g →
        counts[i]? = some (UInt32.ofNat (Signal.rises (bit g) first words)) := by
  intro h
  have hzero := h ((ConfiguredChannels.new (RPiInterfaceEmulated 0)).addChannels [11, 12])
    0x20000 [0x60000] [1, 1] (by decide) (by decide) 0 17 (by decide)
  exact absurd hzero (by decide)

/-! ## Skipping unchanged words -/

/-- **Skipping unchanged words is sound.** The decoder at the end of the run is a fresh one shown the
masked words that differ from the word before them. So the counts depend only on the sequence of
masked words with repetitions collapsed; a rise between the last two reads is always counted; and
what was counted for a channel is at most one more than its rises. -/
theorem pollLoop_skips_soundly (cc : ConfiguredChannels) (hn : cc.totalChannels ≠ 0)
    (hrange : cc.InRange) :
    ∃ mask, cc.getChannelsMask = .ok mask ∧
      (∀ first words, ∃ r d₀ flags,
        PollAndAccumulateRunner.pollUntilStopped cc first words = .ok r ∧
        DecodeGpioRegsAndAccumulate.new cc = .ok d₀ ∧
        d₀.processAll (changedWords mask first words) = .ok (r.m_decodeAndAccummulate, flags)) ∧
      (∀ first words first' words',
        ((first :: words).map (· &&& mask)).destutter (· ≠ ·) =
          ((first' :: words').map (· &&& mask)).destutter (· ≠ ·) →
        PollAndAccumulateRunner.pollCounts cc first words =
          PollAndAccumulateRunner.pollCounts cc first' words') ∧
      (∀ first words word, ∃ counts counts',
        PollAndAccumulateRunner.pollCounts cc first words = .ok counts ∧
        PollAndAccumulateRunner.pollCounts cc first (words ++ [word]) = .ok counts' ∧
        ∀ (i : Nat) (g : Int32), cc.gpios[i]? = some g →
          bit g (words.getLastD first) = false → bit g word = true →
          ∃ c, counts[i]? = some c ∧ counts'[i]? = some (c + 1)) ∧
      (∀ first words, ∃ counts, PollAndAccumulateRunner.pollCounts cc first words = .ok counts ∧
        ∀ (i : Nat) (g : Int32), cc.gpios[i]? = some g → ∃ n c, counts[i]? = some c ∧
          c.toNat = n % 2 ^ 32 ∧ Signal.rises (bit g) first words ≤ n ∧
          n ≤ Signal.rises (bit g) first words + 1) := by
  obtain ⟨mask, hmask, hbits⟩ := ConfiguredChannels.getChannelsMask_eq hrange
  refine ⟨mask, hmask, fun first words => ?_, fun first words first' words' hsame => ?_,
    fun first words word => ?_, fun first words => ?_⟩
  · obtain ⟨r, d₀, flags, hpoll, hnew, hrun, -⟩ := pollUntilStopped_eq hn hrange hmask first words
    exact ⟨r, d₀, flags, hpoll, hnew, hrun⟩
  · rw [List.map_cons, List.map_cons, Signal.destutter_cons, Signal.destutter_cons] at hsame
    injection hsame with _ hchanges
    rw [pollCounts_eq hn hrange hmask, pollCounts_eq hn hrange hmask, changedWords, changedWords,
      hchanges]
  · refine ⟨_, _, pollCounts_eq hn hrange hmask _ _, pollCounts_eq hn hrange hmask _ _, ?_⟩
    intro i g hg hlow hhigh
    have hmem : g ∈ cc.gpios := List.mem_of_getElem? hg
    refine ⟨_, getElem?_countsAfter hg _, ?_⟩
    rw [getElem?_countsAfter hg, rises_polled_concat hbits hrange first words hmem hlow hhigh,
      UInt32.ofNat_add]
    rfl
  · refine ⟨_, pollCounts_eq hn hrange hmask first words, fun i g hg => ?_⟩
    have hmem : g ∈ cc.gpios := List.mem_of_getElem? hg
    have hpolled := rises_polled hbits hrange first words hmem
    refine ⟨_, _, getElem?_countsAfter hg _, UInt32.toNat_ofNat', ?_, ?_⟩
    · rw [hpolled]
      exact Nat.le_add_right _ _
    · rw [hpolled]
      split <;> omega

/-- A word read twice, with a bit of no configured pin set the second time, is as good as read once. -/
theorem pollLoop_skips_soundly_twice :
    let cc := (ConfiguredChannels.new (RPiInterfaceEmulated 0)).addChannels [11, 12]
    PollAndAccumulateRunner.pollCounts cc 0 [0x20000, 0x20001] =
      PollAndAccumulateRunner.pollCounts cc 0 [0x20000] := by
  intro cc
  obtain ⟨mask, hmask, -, hsame, -⟩ := pollLoop_skips_soundly cc (by decide) (by decide)
  have hvalue : cc.getChannelsMask = .ok 0x60000 := by decide
  obtain rfl : mask = 0x60000 := Except.ok.inj (hmask.symm.trans hvalue)
  exact hsame 0 [0x20000, 0x20001] 0 [0x20000] (by decide)

end PulseCounter
