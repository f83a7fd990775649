import PulseCounter.GpioWord
import Std.Data.TreeMap.Lemmas
import Mathlib.Data.List.Sort

/-!
# The channel table

`ConfiguredChannels` numbers the configured pins from 1 in the order they are added and remembers
the GPIO number of each in an ordered map. The structure carries the fact that its keys are exactly
`1, …, size`, which every `addChannel` restores, so the table is read everywhere else as the list
`gpios` of its GPIO numbers in channel order.
-/

namespace PulseCounter

/-- Channel numbers are kept as integers: they are `1, …, size`, so they stay in the range of the
source's `int` as long as there are fewer than `2 ^ 31` channels. -/
abbrev channel_pinbit_t := Std.TreeMap Int Int32

/-- The keys of a channel map are `1, …, size`. -/
def Numbered (m : channel_pinbit_t) : Prop := ∀ k : Int, k ∈ m ↔ 1 ≤ k ∧ k ≤ m.size

/-- The number `addChannel` gives the next channel: one after the last key (`rbegin()->first`). -/
def nextChannel (m : channel_pinbit_t) : Int :=
  match m.keys.getLast? with
  | some last => last + 1
  | none => 1

namespace Numbered

theorem empty : Numbered ∅ := by
  intro k
  simp only [Std.TreeMap.not_mem_emptyc, Std.TreeMap.size_emptyc, false_iff]
  omega

variable {m : channel_pinbit_t} (h : Numbered m)

include h

/-- The last key of a nonempty numbered map is its size. -/
theorem getLast?_keys (hsize : m.size ≠ 0) : m.keys.getLast? = some (m.size : Int) := by
  have hmem : (m.size : Int) ∈ m.keys := by
    rw [Std.TreeMap.mem_keys, h]
    omega
  obtain ⟨before, after, hsplit⟩ := List.append_of_mem hmem
  have hlast : after = [] := by
    -- the keys after the size would be larger than it
    refine List.eq_nil_iff_forall_not_mem.mpr fun k hk => ?_
    have hlt : compare (m.size : Int) k = .lt := by
      have hord := Std.TreeMap.ordered_keys (t := m)
      rw [hsplit, List.pairwise_append, List.pairwise_cons] at hord
      exact hord.2.1.1 k hk
    have hle : 1 ≤ k ∧ k ≤ m.size := by
      rw [← h, ← Std.TreeMap.mem_keys, hsplit]
      simp [hk]
    rw [Int.compare_eq_lt] at hlt
    omega
  rw [hsplit, hlast, List.getLast?_concat]

theorem nextChannel_eq : nextChannel m = m.size + 1 := by
  unfold nextChannel
  by_cases hsize : m.size = 0
  · have hkeys : m.keys = [] := by
      rw [← List.length_eq_zero_iff, Std.TreeMap.length_keys, hsize]
    rw [hkeys, hsize]
    rfl
  · rw [h.getLast?_keys hsize]

theorem size_insert_nextChannel (g : Int32) : (m.insert (nextChannel m) g).size = m.size + 1 := by
  have hnew : ¬nextChannel m ∈ m := by
    rw [h, h.nextChannel_eq]
    omega
  rw [Std.TreeMap.size_insert, if_neg (by simpa using hnew)]

theorem insert_nextChannel (g : Int32) : Numbered (m.insert (nextChannel m) g) := by
  intro k
  rw [Std.TreeMap.mem_insert, h.size_insert_nextChannel, h, h.nextChannel_eq,
    Std.LawfulEqCmp.compare_eq_iff_eq]
  omega

end Numbered

structure ConfiguredChannels where
  m_rpi : RPiInterface
  m_channel_pinbit : channel_pinbit_t
  numbered : Numbered m_channel_pinbit

namespace ConfiguredChannels

def new (rpi : RPiInterface) : ConfiguredChannels := ⟨rpi, ∅, .empty⟩

def addChannel (cc : ConfiguredChannels) (pin : Int32) : ConfiguredChannels where
  m_rpi := cc.m_rpi
  m_channel_pinbit :=
    cc.m_channel_pinbit.insert (nextChannel cc.m_channel_pinbit) (cc.m_rpi.physPinToGpio pin)
  numbered := cc.numbered.insert_nextChannel _

def getChannelPin (cc : ConfiguredChannels) (channel : Int) : Except Fault Int32 :=
  match cc.m_channel_pinbit[channel]? with
  | none => .error (.runtime_error "channel not found")
  | some gpio => .ok gpio

def totalChannels (cc : ConfiguredChannels) : Nat := cc.m_channel_pinbit.size

/-- One round of the loop of `getChannelsMask`. -/
def addToMask (mask : UInt32) (i : Int × Int32) : Except Fault UInt32 := do
  let one ← shiftOne i.2
  return mask ||| one

def getChannelsMask (cc : ConfiguredChannels) : Except Fault UInt32 :=
  cc.m_channel_pinbit.toList.foldlM addToMask 0

/-- Add the pins of a list in order. -/
def addChannels (cc : ConfiguredChannels) (pins : List Int32) : ConfiguredChannels :=
  pins.foldl addChannel cc

/-! ## The table as a list -/

/-- The GPIO numbers of channels `1, …, totalChannels`. -/
def gpios (cc : ConfiguredChannels) : List Int32 :=
  (List.range cc.totalChannels).map fun i : Nat => cc.m_channel_pinbit.getD ((i : Int) + 1) 0

@[simp] theorem length_gpios (cc : ConfiguredChannels) : cc.gpios.length = cc.totalChannels := by
  simp [gpios]

/-- Entry `i` of the list is the value of key `i + 1`. -/
theorem getElem?_gpios (cc : ConfiguredChannels) (i : Nat) :
    cc.gpios[i]? = cc.m_channel_pinbit[(i : Int) + 1]? := by
  by_cases hi : i < cc.totalChannels
  · have hmem : (i : Int) + 1 ∈ cc.m_channel_pinbit := by
      rw [cc.numbered]
      unfold totalChannels at hi
      omega
    obtain ⟨g, hg⟩ := Option.isSome_iff_exists.mp (Std.TreeMap.mem_iff_isSome_getElem?.mp hmem)
    simp [gpios, hi, Std.TreeMap.getD_eq_getD_getElem?, hg]
  · have hmem : ¬(i : Int) + 1 ∈ cc.m_channel_pinbit := by
      rw [cc.numbered]
      unfold totalChannels at hi
      omega
    rw [Std.TreeMap.getElem?_eq_none hmem, List.getElem?_eq_none (by simpa using hi)]

/-- The decoder's lookup of channel `i + 1`. -/
theorem getChannelPin_eq {cc : ConfiguredChannels} {i : Nat} {g : Int32}
    (h : cc.gpios[i]? = some g) : cc.getChannelPin (i + 1) = .ok g := by
  rw [getElem?_gpios] at h
  unfold getChannelPin
  rw [h]

@[simp] theorem gpios_new (rpi : RPiInterface) : (new rpi).gpios = [] := by
  unfold gpios totalChannels new
  simp

/-- A new channel goes to the end of the list and leaves the others where they are. -/
@[simp] theorem gpios_addChannel (cc : ConfiguredChannels) (pin : Int32) :
    (cc.addChannel pin).gpios = cc.gpios ++ [cc.m_rpi.physPinToGpio pin] := by
  refine List.ext_getElem? fun i => ?_
  have hnext := cc.numbered.nextChannel_eq
  have hlookup : (cc.addChannel pin).m_channel_pinbit[(i : Int) + 1]? =
      if i = cc.totalChannels then some (cc.m_rpi.physPinToGpio pin)
      else cc.m_channel_pinbit[(i : Int) + 1]? := by
    have hkey : cc.m_channel_pinbit.size + 1 = (i : Int) + 1 ↔ i = cc.totalChannels := by
      unfold totalChannels
      omega
    simp only [addChannel, Std.TreeMap.getElem?_insert, Std.LawfulEqCmp.compare_eq_iff_eq, hnext,
      hkey]
  rw [getElem?_gpios, hlookup, List.getElem?_append, length_gpios]
  rcases Nat.lt_trichotomy i cc.totalChannels with hi | rfl | hi
  · rw [if_neg (Nat.ne_of_lt hi), if_pos hi, getElem?_gpios]
  · simp
  · rw [if_neg (Nat.ne_of_gt hi), if_neg (by omega), ← getElem?_gpios,
      List.getElem?_eq_none (by simp; omega), List.getElem?_eq_none (by simp; omega)]

theorem gpios_addChannels (cc : ConfiguredChannels) (pins : List Int32) :
    (cc.addChannels pins).gpios = cc.gpios ++ pins.map cc.m_rpi.physPinToGpio := by
  induction pins generalizing cc with
  | nil => simp [addChannels]
  | cons pin pins ih =>
    have hstep : cc.addChannels (pin :: pins) = (cc.addChannel pin).addChannels pins := rfl
    rw [hstep, ih, gpios_addChannel, List.append_assoc]
    rfl

/-- There is no other channel. -/
theorem getChannelPin_eq_error {cc : ConfiguredChannels} {channel : Int}
    (h : ¬(1 ≤ channel ∧ channel ≤ cc.totalChannels)) :
    cc.getChannelPin channel = .error (.runtime_error "channel not found") := by
  have hmem : ¬channel ∈ cc.m_channel_pinbit := by
    rw [cc.numbered]
    exact h
  unfold getChannelPin
  rw [Std.TreeMap.getElem?_eq_none hmem]

/-- A channel that is there is entry `channel - 1` of the list. -/
theorem getChannelPin_of_le {cc : ConfiguredChannels} {channel : Int} (h₁ : 1 ≤ channel)
    (h₂ : channel ≤ cc.totalChannels) :
    ∃ g, cc.gpios[(channel - 1).toNat]? = some g ∧ cc.getChannelPin channel = .ok g := by
  have hlt : (channel - 1).toNat < cc.gpios.length := by
    rw [length_gpios]
    omega
  have hg := List.getElem?_eq_getElem hlt
  refine ⟨_, hg, ?_⟩
  have hpin := getChannelPin_eq hg
  rw [Int.toNat_of_nonneg (by omega), Int.sub_add_cancel] at hpin
  exact hpin

@[simp] theorem totalChannels_addChannels (cc : ConfiguredChannels) (pins : List Int32) :
    (cc.addChannels pins).totalChannels = cc.totalChannels + pins.length := by
  rw [← length_gpios, gpios_addChannels, List.length_append, length_gpios, List.length_map]

@[simp] theorem totalChannels_new (rpi : RPiInterface) : (new rpi).totalChannels = 0 := by
  rw [← length_gpios, gpios_new, List.length_nil]

/-- Later calls leave the channels that are there as they are. -/
theorem getChannelPin_addChannels {cc : ConfiguredChannels} {channel : Int} (h₁ : 1 ≤ channel)
    (h₂ : channel ≤ cc.totalChannels) (later : List Int32) :
    (cc.addChannels later).getChannelPin channel = cc.getChannelPin channel := by
  obtain ⟨g, hg, hpin⟩ := getChannelPin_of_le h₁ h₂
  have hle : channel ≤ (cc.addChannels later).totalChannels := by
    rw [totalChannels_addChannels]
    omega
  obtain ⟨g', hg', hpin'⟩ := getChannelPin_of_le h₁ hle
  have hlt := (List.getElem?_eq_some_iff.mp hg).1
  rw [gpios_addChannels, List.getElem?_append_left hlt, hg] at hg'
  injection hg' with heq
  rw [hpin, hpin', heq]

/-! ## The mask -/

/-- Every configured GPIO number is a bit of the register word. -/
def InRange (cc : ConfiguredChannels) : Prop := ∀ g ∈ cc.gpios, GpioBit g

instance (cc : ConfiguredChannels) : Decidable cc.InRange :=
  decidable_of_iff (cc.gpios.all fun g => decide (GpioBit g)) (by simp [InRange])

theorem mem_gpios_iff {cc : ConfiguredChannels} {g : Int32} :
    g ∈ cc.gpios ↔ ∃ k, (k, g) ∈ cc.m_channel_pinbit.toList := by
  simp only [Std.TreeMap.mem_toList_iff_getElem?_eq_some]
  constructor
  · intro hg
    obtain ⟨i, hi⟩ := List.mem_iff_getElem?.mp hg
    exact ⟨i + 1, by rw [← getElem?_gpios, hi]⟩
  · rintro ⟨k, hk⟩
    have hmem : k ∈ cc.m_channel_pinbit := by
      rw [Std.TreeMap.mem_iff_isSome_getElem?, hk]
      rfl
    obtain ⟨h1, -⟩ := (cc.numbered k).mp hmem
    refine List.mem_iff_getElem?.mpr ⟨(k - 1).toNat, ?_⟩
    rw [getElem?_gpios, Int.toNat_of_nonneg (by omega), Int.sub_add_cancel, hk]

theorem mem_gpios_of_getChannelPin {cc : ConfiguredChannels} {channel : Int} {g : Int32}
    (h : cc.getChannelPin channel = .ok g) : g ∈ cc.gpios := by
  unfold getChannelPin at h
  split at h
  · cases h
  · next gpio hgpio =>
    injection h with h
    subst h
    exact mem_gpios_iff.mpr ⟨channel, Std.TreeMap.mem_toList_iff_getElem?_eq_some.mpr hgpio⟩

/-- A table that was empty holds the GPIO numbers of the pins that were added, in order. -/
theorem gpios_addChannels_of_empty {cc : ConfiguredChannels} (h : cc.totalChannels = 0)
    (pins : List Int32) : (cc.addChannels pins).gpios = pins.map cc.m_rpi.physPinToGpio := by
  have hnil : cc.gpios = [] := by
    rw [← List.length_eq_zero_iff, length_gpios, h]
  rw [gpios_addChannels, hnil, List.nil_append]

/-- Pins that are bits of the register word make channels that are. -/
theorem inRange_addChannels_of_empty {cc : ConfiguredChannels} (h : cc.totalChannels = 0)
    {pins : List Int32} (hpins : ∀ pin ∈ pins, GpioBit (cc.m_rpi.physPinToGpio pin)) :
    (cc.addChannels pins).InRange := by
  intro g hg
  rw [gpios_addChannels_of_empty h] at hg
  obtain ⟨pin, hpin, rfl⟩ := List.mem_map.mp hg
  exact hpins pin hpin

theorem inRange_addChannels {cc : ConfiguredChannels} (h : cc.totalChannels = 0) {pins : List Int32}
    (hne : pins ≠ []) (hpins : ∀ pin ∈ pins, GpioBit (cc.m_rpi.physPinToGpio pin)) :
    (cc.addChannels pins).totalChannels ≠ 0 ∧ (cc.addChannels pins).InRange := by
  refine ⟨?_, inRange_addChannels_of_empty h hpins⟩
  rw [totalChannels_addChannels, h, Nat.zero_add]
  exact fun hzero => hne (List.length_eq_zero_iff.mp hzero)

/-- The mask loop over channels that are all bits of the word sets exactly their bits. -/
theorem foldlM_addToMask {l : List (Int × Int32)} (h : ∀ i ∈ l, GpioBit i.2) (mask : UInt32) :
    ∃ mask', l.foldlM addToMask mask = .ok mask' ∧
      ∀ b, GpioBit b → (bit b mask' = true ↔ bit b mask = true ∨ ∃ i ∈ l, i.2 = b) := by
  induction l generalizing mask with
  | nil => exact ⟨mask, rfl, by simp⟩
  | cons i l ih =>
    have hi : GpioBit i.2 := h i List.mem_cons_self
    obtain ⟨mask', hmask', hbits⟩ :=
      ih (fun j hj => h j (List.mem_cons_of_mem i hj)) (mask ||| 1 <<< i.2.toUInt32)
    refine ⟨mask', ?_, fun b hb => ?_⟩
    · rw [List.foldlM_cons, addToMask, hi.shiftOne_eq]
      exact hmask'
    · rw [hbits b hb, bit_or, hi.bit_shift hb, Bool.or_eq_true, decide_eq_true_iff, or_assoc,
        @eq_comm _ b]
      simp only [List.mem_cons, exists_eq_or_imp]

/-- **The channel mask** is defined and its bits are exactly the configured ones. -/
theorem getChannelsMask_eq {cc : ConfiguredChannels} (h : cc.InRange) :
    ∃ mask, cc.getChannelsMask = .ok mask ∧
      ∀ b, GpioBit b → (bit b mask = true ↔ b ∈ cc.gpios) := by
  obtain ⟨mask, hmask, hbits⟩ := foldlM_addToMask
    (l := cc.m_channel_pinbit.toList) (fun i hi => h _ (mem_gpios_iff.mpr ⟨i.1, hi⟩)) 0
  refine ⟨mask, hmask, fun b hb => ?_⟩
  rw [hbits b hb, bit_zero, mem_gpios_iff]
  constructor
  · rintro (hf | ⟨i, hi, rfl⟩)
    · cases hf
    · exact ⟨i.1, hi⟩
  · rintro ⟨k, hk⟩
    exact Or.inr ⟨(k, b), hk, rfl⟩

theorem forall_of_foldlM_addToMask {l : List (Int × Int32)} {mask mask' : UInt32}
    (h : l.foldlM addToMask mask = .ok mask') : ∀ i ∈ l, GpioBit i.2 := by
  induction l generalizing mask with
  | nil =>
    intro i hi
    cases hi
  | cons i l ih =>
    rw [List.foldlM_cons] at h
    by_cases hbit : GpioBit i.2
    · rw [addToMask, hbit.shiftOne_eq] at h
      rw [List.forall_mem_cons]
      exact ⟨hbit, ih h⟩
    · rw [addToMask, shiftOne, if_neg hbit] at h
      cases h

/-- The mask is defined only if every configured GPIO number is a bit of the register word. -/
theorem inRange_of_getChannelsMask {cc : ConfiguredChannels} {mask : UInt32}
    (h : cc.getChannelsMask = .ok mask) : cc.InRange := by
  intro g hg
  obtain ⟨k, hk⟩ := mem_gpios_iff.mp hg
  exact forall_of_foldlM_addToMask h (k, g) hk

end ConfiguredChannels

end PulseCounter
