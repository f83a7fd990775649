import PulseCounter.DecodeGpioRegsAndAccumulate
import PulseCounter.WiringPi

/-!
# Channels and pins

After any sequence of `addChannel` calls on a fresh table the channels are numbered from 1 in the order
of the calls, and the mask has the bits of their GPIO numbers (`channel_table_numbered`). On the board,
the masked register word that the program decodes tells of each channel what `digitalRead` would tell
of its pin (`digitalReadAll_agrees`).
-/

namespace PulseCounter

/-! ## The channel table -/

namespace ConfiguredChannels

/-- **The channel table is a numbered list** of the pins added to it. Channel `k + 1` has the GPIO
number of pin `k` of the list, whatever is added later; there is no other channel; the mask has exactly
the bits of the GPIO numbers; and the numbers given are in the range of an `int`. -/
theorem channel_table_numbered (rpi : RPiInterface) (pins : List Int32)
    (hlen : pins.length < 2 ^ 31 - 1) (hrange : ∀ pin ∈ pins, GpioBit (rpi.physPinToGpio pin)) :
    let cc := (new rpi).addChannels pins
    cc.totalChannels = pins.length ∧
      nextChannel cc.m_channel_pinbit < 2 ^ 31 ∧
      (∀ (k : Nat) (pin : Int32), pins[k]? = some pin →
        cc.getChannelPin (k + 1) = .ok (rpi.physPinToGpio pin)) ∧
      (∀ channel : Int, ¬(1 ≤ channel ∧ channel ≤ pins.length) →
        cc.getChannelPin channel = .error (.runtime_error "channel not found")) ∧
      (∀ (later : List Int32) (channel : Int), 1 ≤ channel → channel ≤ pins.length →
        (cc.addChannels later).getChannelPin channel = cc.getChannelPin channel) ∧
      ∃ mask, cc.getChannelsMask = .ok mask ∧
        ∀ b, GpioBit b → (bit b mask = true ↔ ∃ pin ∈ pins, rpi.physPinToGpio pin = b) := by
  intro cc
  have hgpios : cc.gpios = pins.map rpi.physPinToGpio :=
    gpios_addChannels_of_empty (totalChannels_new rpi) pins
  have htotal : cc.totalChannels = pins.length := by
    rw [totalChannels_addChannels, totalChannels_new, Nat.zero_add]
  refine ⟨htotal, ?_, ?_, ?_, ?_, ?_⟩
  · rw [cc.numbered.nextChannel_eq]
    change (cc.totalChannels : Int) + 1 < 2 ^ 31
    omega
  · intro k pin hpin
    apply getChannelPin_eq
    rw [hgpios, List.getElem?_map, hpin]
    rfl
  · intro channel hchannel
    apply getChannelPin_eq_error
    rw [htotal]
    exact hchannel
  · intro later channel h₁ h₂
    apply getChannelPin_addChannels h₁
    rw [htotal]
    exact h₂
  · have hinrange := inRange_addChannels_of_empty (totalChannels_new rpi) hrange
    obtain ⟨mask, hmask, hbits⟩ := getChannelsMask_eq hinrange
    refine ⟨mask, hmask, fun b hb => ?_⟩
    rw [hbits b hb, hgpios, List.mem_map]

/-- A pin that is added twice has two channels. -/
theorem channel_table_numbered_repeated :
    ((new (RPiInterfaceEmulated 0)).addChannels [11, 12, 11]).totalChannels = 3 ∧
      ((new (RPiInterfaceEmulated 0)).addChannels [11, 12, 11]).getChannelPin 3 = .ok 17 := by
  obtain ⟨htotal, -, hpin, -⟩ := channel_table_numbered (RPiInterfaceEmulated 0) [11, 12, 11]
    (by decide) (List.forall_iff_forall_mem.mp (by decide))
  exact ⟨htotal, hpin 2 11 rfl⟩

end ConfiguredChannels

/-! ## Single pins -/

namespace WiringPi

/-- The pins of the board itself. -/
def OnBoard (pin : Int32) : Prop := 0 ≤ pin ∧ pin ≤ 63

instance (pin : Int32) : Decidable (OnBoard pin) := inferInstanceAs (Decidable (_ ∧ _))

theorem toNatClampNeg_lt_of_le {i : Int32} {n : Nat} (h : i.toInt < n) (hn : 0 < n) :
    i.toNatClampNeg < n := by
  rw [← Int32.toNat_toInt]
  omega

/-- The mask test of `digitalRead` lets the pins of the board through, and their index is the one that
`physPinToGpio` masks out. -/
theorem OnBoard.index {pin : Int32} (h : OnBoard pin) :
    pin.toUInt32 &&& PI_GPIO_MASK = 0 ∧ pin.toUInt32.toNat = (pin &&& 63).toNatClampNeg := by
  have htable : ∀ k < 64, (Int32.ofNat k).toUInt32 &&& PI_GPIO_MASK = 0 ∧
      (Int32.ofNat k).toUInt32.toNat = (Int32.ofNat k &&& 63).toNatClampNeg := by decide
  have hlt : pin.toNatClampNeg < 64 := by
    apply toNatClampNeg_lt_of_le _ (by decide)
    exact Int.lt_of_le_of_lt (Int32.le_iff_toInt_le.mp h.2) (by decide)
  have hpin := htable pin.toNatClampNeg hlt
  rw [Int32.ofNat_toNatClampNeg pin h.1] at hpin
  exact hpin

theorem element_eq {α : Type} {n : Nat} (table : Vector α n) {i : Int32} {k : Nat}
    (hi : i.toUInt32.toNat = k) (hk : k < n) : element table i = .ok table[k] := by
  unfold element
  rw [hi, Vector.getElem?_eq_getElem hk]

/-- The GPIO numbers of the first register word have their level in the first level register. -/
theorem element_gpioToGPLEV {g : Int32} (h : GpioBit g) : element gpioToGPLEV g = .ok 13 := by
  have htable : ∀ k (hk : k < 32), gpioToGPLEV[k] = 13 := by decide
  obtain ⟨hlt, hindex⟩ := h.toNat
  rw [element_eq gpioToGPLEV hindex (by omega), htable _ hlt]

variable {w : WiringPi}

theorem readLevel_eq {g : Int32} (h : GpioBit g) :
    w.readLevel g = .ok (if bit g (w.gpio 13) then HIGH else LOW) := by
  unfold readLevel
  rw [element_gpioToGPLEV h, h.and_31]
  change Except.ok (if _ then HIGH else LOW) = _
  simp only [h.and_shift_ne_zero]

/-- **A single pin** in physical-pin mode. -/
theorem digitalRead_eq (hmode : w.wiringPiMode = .WPI_MODE_PHYS) {pin : Int32} (hpin : OnBoard pin)
    (hbit : GpioBit (w.physPinToGpio pin)) :
    w.digitalRead pin = .ok (if bit (w.physPinToGpio pin) (w.gpio 13) then HIGH else LOW) := by
  obtain ⟨hmask, hindex⟩ := hpin.index
  unfold digitalRead
  rw [if_pos hmask, hmode]
  change (element w.physToGpio pin).bind w.readLevel = _
  rw [element_eq w.physToGpio hindex (and_63_lt pin)]
  exact readLevel_eq hbit

theorem digitalReadAll_eq (hmode : w.wiringPiMode = .WPI_MODE_PHYS) :
    w.digitalReadAll 0 = w.gpio 13 := by
  unfold digitalReadAll
  rw [hmode, if_neg (by decide)]
  rfl

/-- A level is the value that the decoder gives for its bit. -/
theorem toUInt32_level (level : Bool) : (if level then HIGH else LOW).toUInt32 = level.toUInt32 := by
  cases level with
  | false => rfl
  | true => rfl

/-- **Bulk reads agree with single reads.** For pins of the board whose GPIO numbers are bits of the
register word, what the decoder tests for a channel, in the word as it was read and in the word left of
it by the channel mask, is what `digitalRead` gives for the channel's pin. -/
theorem digitalReadAll_agrees (w : WiringPi) (hmode : w.wiringPiMode = .WPI_MODE_PHYS)
    (reading : UInt32) (pins : List Int32)
    (hpins : ∀ pin ∈ pins, OnBoard pin ∧ GpioBit (w.physPinToGpio pin)) :
    let cc := (ConfiguredChannels.new (w.real reading)).addChannels pins
    ∃ mask, cc.getChannelsMask = .ok mask ∧
      ∀ (k : Nat) (pin : Int32), pins[k]? = some pin →
        ∃ g value, cc.getChannelPin (k + 1) = .ok g ∧ w.digitalRead pin = .ok value ∧
          getPinValue (w.digitalReadAll 0 &&& mask) g.toUInt32 = value.toUInt32 ∧
          getPinValue (w.digitalReadAll 0) g.toUInt32 = value.toUInt32 := by
  intro cc
  have hfresh := ConfiguredChannels.totalChannels_new (w.real reading)
  have hgpios : cc.gpios = pins.map w.physPinToGpio :=
    ConfiguredChannels.gpios_addChannels_of_empty hfresh pins
  have hinrange : cc.InRange :=
    ConfiguredChannels.inRange_addChannels_of_empty hfresh fun pin hpin => (hpins pin hpin).2
  obtain ⟨mask, hmask, hbits⟩ := ConfiguredChannels.getChannelsMask_eq hinrange
  refine ⟨mask, hmask, fun k pin hpin => ?_⟩
  obtain ⟨honBoard, hbit⟩ := hpins pin (List.mem_of_getElem? hpin)
  have hg : cc.gpios[k]? = some (w.physPinToGpio pin) := by
    rw [hgpios, List.getElem?_map, hpin]
    rfl
  have hone : bit (w.physPinToGpio pin) mask = true :=
    (hbits _ hbit).mpr (List.mem_of_getElem? hg)
  refine ⟨_, _, ConfiguredChannels.getChannelPin_eq hg, digitalRead_eq hmode honBoard hbit, ?_, ?_⟩
  · rw [getPinValue_eq hbit, digitalReadAll_eq hmode, bit_and, hone, Bool.and_true, toUInt32_level]
  · rw [getPinValue_eq hbit, digitalReadAll_eq hmode, toUInt32_level]

/-- A board of the second revision, after its set-up, with one of two pins high. -/
theorem digitalReadAll_agrees_two :
    let w := (WiringPi.wiringPiSetupPhys {
      boardRev := 2
      wiringPiMode := .WPI_MODE_UNINITIALISED
      gpio := fun offset => if offset = 13 then 0x20000 else 0
      sysFds := Vector.replicate 64 none
      wiringPiNodes := [] }).2
    let cc := (ConfiguredChannels.new (w.real 7)).addChannels [11, 12]
    ∃ mask, cc.getChannelsMask = .ok mask ∧
      ∀ (k : Nat) (pin : Int32), [11, 12][k]? = some pin →
        ∃ g value, cc.getChannelPin (k + 1) = .ok g ∧ w.digitalRead pin = .ok value ∧
          getPinValue (w.digitalReadAll 0 &&& mask) g.toUInt32 = value.toUInt32 ∧
          getPinValue (w.digitalReadAll 0) g.toUInt32 = value.toUInt32 :=
  digitalReadAll_agrees _ rfl 7 [11, 12] (List.forall_iff_forall_mem.mp (by decide))

end WiringPi

end PulseCounter
