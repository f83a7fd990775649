import PulseCounter.ConfiguredChannels
import PulseCounter.Lib.Loops
import PulseCounter.Lib.Edges

/-!
# The decoder

`process` compares the level of every configured pin in a register word with the level remembered
for that channel, counts the channels that went high and remembers the new levels. `getResult`
copies the counts into a local vector. Both loops go through their vectors one channel at a time,
and the bodies of the loops (`processChannel`, `copyChannel`) are definitions of their own: the
interleaving model takes them as its atomic steps.

`Tallies d count level` says what a decoder means: channel by channel it holds `count` modulo
`2 ^ 32` and remembers `level`. One call of `process` moves each count by the edge of its pin
(`process_tallies`).
-/

namespace PulseCounter

/-- `v[i]` on a vector; reading past its end is undefined in the source. -/
def subscript (v : List UInt32) (i : Nat) : Except Fault UInt32 :=
  match v[i]? with
  | some x => .ok x
  | none => .error (.subscript i)

/-- `v[i] = x` on a vector. -/
def assign (v : List UInt32) (i : Nat) (x : UInt32) : Except Fault (List UInt32) :=
  if i < v.length then .ok (v.set i x) else .error (.subscript i)

theorem subscript_eq {v : List UInt32} {i : Nat} {x : UInt32} (h : v[i]? = some x) :
    subscript v i = .ok x := by
  unfold subscript
  rw [h]

theorem assign_eq {v : List UInt32} {i : Nat} (x : UInt32) (h : i < v.length) :
    assign v i x = .ok (v.set i x) := if_pos h

structure DecodeGpioRegsAndAccumulate where
  m_configured_channels : ConfiguredChannels
  m_gpioPinAccumulation : List UInt32
  m_gpioPinAccumulationLocal : List UInt32
  m_lastGpioValue : List UInt32

def getPinValue (regValue pin : UInt32) : UInt32 :=
  let shifter := 1 <<< (pin &&& 31)
  if regValue &&& shifter ≠ 0 then 1 else 0

@[simp] theorem toUInt32_false : false.toUInt32 = 0 := rfl

@[simp] theorem toUInt32_true : true.toUInt32 = 1 := rfl

theorem getPinValue_eq {g : Int32} (h : GpioBit g) (w : UInt32) :
    getPinValue w g.toUInt32 = (bit g w).toUInt32 := by
  unfold getPinValue
  simp only [h.and_31, h.and_shift_ne_zero]
  cases bit g w with
  | false => rfl
  | true => rfl

namespace DecodeGpioRegsAndAccumulate

/-- The constructor: it asserts that there are channels and sizes the three vectors by them. -/
def new (configured_channels : ConfiguredChannels) :
    Except Fault DecodeGpioRegsAndAccumulate :=
  if configured_channels.totalChannels = 0 then
    .error (.assertion "required input channels not set configured")
  else
    .ok {
      m_configured_channels := configured_channels
      m_gpioPinAccumulation := List.replicate configured_channels.totalChannels 0
      m_gpioPinAccumulationLocal := List.replicate configured_channels.totalChannels 0
      m_lastGpioValue := List.replicate configured_channels.totalChannels 0 }

/-- The loop of `process` at index `i`, on the object and the flag `changesDetected`. -/
def processChannel (piGpioReg : UInt32) (i : Nat) (s : DecodeGpioRegsAndAccumulate × Bool) :
    Except Fault (DecodeGpioRegsAndAccumulate × Bool) := do
  let (d, changesDetected) := s
  let pin ← d.m_configured_channels.getChannelPin (i + 1)
  let currentgpioValue := getPinValue piGpioReg pin.toUInt32
  let last ← subscript d.m_lastGpioValue i
  if currentgpioValue ≠ last then
    if currentgpioValue = 1 then  -- only count high signal
      let count ← subscript d.m_gpioPinAccumulation i
      let accumulation ← assign d.m_gpioPinAccumulation i (count + 1)
      let lastGpioValue ← assign d.m_lastGpioValue i currentgpioValue
      return ({ d with
        m_gpioPinAccumulation := accumulation
        m_lastGpioValue := lastGpioValue }, true)
    else
      let lastGpioValue ← assign d.m_lastGpioValue i currentgpioValue
      return ({ d with m_lastGpioValue := lastGpioValue }, changesDetected)
  else
    return (d, changesDetected)

/-- Count the pins that went high in a register word; the flag says whether any did. -/
def process (d : DecodeGpioRegsAndAccumulate) (piGpioReg : UInt32) :
    Except Fault (DecodeGpioRegsAndAccumulate × Bool) :=
  Loop.forUpTo d.m_configured_channels.totalChannels (processChannel piGpioReg) (d, false)

/-- The words of a list in order, with the flag each call returned. -/
def processAll (d : DecodeGpioRegsAndAccumulate) :
    List UInt32 → Except Fault (DecodeGpioRegsAndAccumulate × List Bool)
  | [] => .ok (d, [])
  | w :: ws => do
    let (d, changesDetected) ← d.process w
    let (d, flags) ← processAll d ws
    return (d, changesDetected :: flags)

/-- `getResult` before it takes the lock. -/
def clearLocal (d : DecodeGpioRegsAndAccumulate) : DecodeGpioRegsAndAccumulate :=
  { d with m_gpioPinAccumulationLocal := [] }

/-- `copy` of `getResult` at index `i`. -/
def copyChannel (i : Nat) (d : DecodeGpioRegsAndAccumulate) :
    Except Fault DecodeGpioRegsAndAccumulate := do
  let count ← subscript d.m_gpioPinAccumulation i
  return { d with m_gpioPinAccumulationLocal := d.m_gpioPinAccumulationLocal ++ [count] }

/-- The counts, and the object whose local vector holds them. -/
def getResult (d : DecodeGpioRegsAndAccumulate) :
    Except Fault (DecodeGpioRegsAndAccumulate × List UInt32) := do
  let d ← Loop.forUpTo d.m_gpioPinAccumulation.length copyChannel d.clearLocal
  return (d, d.m_gpioPinAccumulationLocal)

/-! ## What a decoder holds -/

/-- Channel by channel the decoder holds `count` modulo `2 ^ 32` and remembers `level`. -/
structure Tallies (d : DecodeGpioRegsAndAccumulate) (count : Int32 → Nat) (level : Int32 → Bool) :
    Prop where
  accumulation : d.m_gpioPinAccumulation =
    d.m_configured_channels.gpios.map fun g => UInt32.ofNat (count g)
  last : d.m_lastGpioValue = d.m_configured_channels.gpios.map fun g => (level g).toUInt32

/-- The same in the middle of `process w`, when its loop stands at index `j`: the first `j` channels
already count the edge of `w` and remember its level. -/
structure Partway (d : DecodeGpioRegsAndAccumulate) (count : Int32 → Nat) (level : Int32 → Bool)
    (w : UInt32) (j : Nat) : Prop where
  accumulation : d.m_gpioPinAccumulation = Loop.sweep
    (fun g => UInt32.ofNat (count g + Signal.edge (level g) (bit g w)))
    (fun g => UInt32.ofNat (count g)) j d.m_configured_channels.gpios
  last : d.m_lastGpioValue = Loop.sweep
    (fun g => (bit g w).toUInt32) (fun g => (level g).toUInt32) j d.m_configured_channels.gpios

variable {d d' : DecodeGpioRegsAndAccumulate} {count : Int32 → Nat} {level : Int32 → Bool}
  {w : UInt32}

theorem Tallies.partway (h : Tallies d count level) (w : UInt32) : Partway d count level w 0 :=
  ⟨h.accumulation, h.last⟩

theorem Partway.tallies {j : Nat} (h : Partway d count level w j)
    (hj : d.m_configured_channels.totalChannels ≤ j) :
    Tallies d (fun g => count g + Signal.edge (level g) (bit g w)) (fun g => bit g w) := by
  have hlen : d.m_configured_channels.gpios.length ≤ j := by
    rw [ConfiguredChannels.length_gpios]
    exact hj
  constructor
  · rw [h.accumulation, Loop.sweep_of_length_le _ _ hlen]
  · rw [h.last, Loop.sweep_of_length_le _ _ hlen]

theorem Tallies.length (h : Tallies d count level) :
    d.m_gpioPinAccumulation.length = d.m_configured_channels.totalChannels := by
  rw [h.accumulation, List.length_map, ConfiguredChannels.length_gpios]

/-- **The body of the loop** carries `Partway` from one index to the next. -/
theorem processChannel_partway (hrange : d.m_configured_channels.InRange) {i : Nat} {g : Int32}
    (hg : d.m_configured_channels.gpios[i]? = some g) (h : Partway d count level w i)
    (changes : Bool) :
    ∃ d', processChannel w i (d, changes) = .ok (d', changes || (!level g && bit g w)) ∧
      d'.m_configured_channels = d.m_configured_channels ∧
      d'.m_gpioPinAccumulationLocal = d.m_gpioPinAccumulationLocal ∧
      Partway d' count level w (i + 1) := by
  have hpin := ConfiguredChannels.getChannelPin_eq hg
  have hbit : GpioBit g := hrange g (List.mem_of_getElem? hg)
  have hlast : d.m_lastGpioValue[i]? = some (level g).toUInt32 := by
    rw [h.last]
    exact Loop.getElem?_sweep_self _ _ hg
  have hcount : d.m_gpioPinAccumulation[i]? = some (UInt32.ofNat (count g)) := by
    rw [h.accumulation]
    exact Loop.getElem?_sweep_self _ _ hg
  have hacc := assign_eq (UInt32.ofNat (count g) + 1) (List.getElem?_eq_some_iff.mp hcount).1
  have hset := assign_eq (bit g w).toUInt32 (List.getElem?_eq_some_iff.mp hlast).1
  have hsetLast := Loop.sweep_set (fun g => (bit g w).toUInt32) (fun g => (level g).toUInt32) hg
  have hsetAcc := Loop.sweep_set (fun g => UInt32.ofNat (count g + Signal.edge (level g) (bit g w)))
    (fun g => UInt32.ofNat (count g)) hg
  have hkeep : Signal.edge (level g) (bit g w) = 0 →
      Loop.sweep (fun g => UInt32.ofNat (count g + Signal.edge (level g) (bit g w)))
        (fun g => UInt32.ofNat (count g)) (i + 1) d.m_configured_channels.gpios =
      Loop.sweep (fun g => UInt32.ofNat (count g + Signal.edge (level g) (bit g w)))
        (fun g => UInt32.ofNat (count g)) i d.m_configured_channels.gpios := by
    intro hedge
    refine Loop.sweep_succ_of_eq _ _ hg ?_
    simp only [hedge, Nat.add_zero]
  unfold processChannel
  simp only [hpin, getPinValue_eq hbit, subscript_eq hlast, subscript_eq hcount, bind, Except.bind]
  by_cases hsame : bit g w = level g
  · -- the level has not changed: nothing is written
    refine ⟨d, ?_, rfl, rfl, ?_, ?_⟩
    · rw [hsame]
      simp [pure, Except.pure]
    · rw [hkeep (by rw [hsame, Signal.edge_self]), h.accumulation]
    · rw [h.last]
      exact (Loop.sweep_succ_of_eq _ _ hg (by rw [hsame])).symm
  · cases hb : bit g w with
    | false =>
      -- the pin went low: only the level is remembered
      have hl : level g = true := by
        rw [hb] at hsame
        simpa using hsame
      rw [hb, toUInt32_false] at hset
      refine ⟨{ d with m_lastGpioValue := d.m_lastGpioValue.set i 0 }, ?_, rfl, rfl,
        ?_, ?_⟩
      · simp [hl, hset, pure, Except.pure]
      · exact h.accumulation.trans (hkeep (by rw [hb, Signal.edge_false_right])).symm
      · rw [← hsetLast, hb, ← h.last]
        rfl
    | true =>
      have hl : level g = false := by
        rw [hb] at hsame
        simpa using hsame
      rw [hb, toUInt32_true] at hset
      refine ⟨{ d with
        m_gpioPinAccumulation := d.m_gpioPinAccumulation.set i (UInt32.ofNat (count g) + 1)
        m_lastGpioValue := d.m_lastGpioValue.set i 1 }, ?_, rfl, rfl, ?_, ?_⟩
      · simp [hl, hset, hacc, pure, Except.pure]
      · rw [← hsetAcc, hb, hl, ← h.accumulation]
        simp [Signal.edge, UInt32.ofNat_add]
      · rw [← hsetLast, hb, ← h.last]
        rfl

/-- The invariant of the loop of `process`, on the object and the flag: it started from `d`. -/
structure During (d : DecodeGpioRegsAndAccumulate) (count : Int32 → Nat) (level : Int32 → Bool)
    (w : UInt32) (j : Nat) (s : DecodeGpioRegsAndAccumulate × Bool) : Prop where
  channels : s.1.m_configured_channels = d.m_configured_channels
  localCopy : s.1.m_gpioPinAccumulationLocal = d.m_gpioPinAccumulationLocal
  partway : Partway s.1 count level w j
  changes : s.2 = (d.m_configured_channels.gpios.take j).any fun g => !level g && bit g w

theorem processChannel_during (hrange : d.m_configured_channels.InRange) {i : Nat}
    (hi : i < d.m_configured_channels.totalChannels)
    {s : DecodeGpioRegsAndAccumulate × Bool} (h : During d count level w i s) :
    ∃ s', processChannel w i s = .ok s' ∧ During d count level w (i + 1) s' := by
  obtain ⟨e, changes⟩ := s
  obtain ⟨hcc, hlocal, hpart, hchanges⟩ := h
  simp only at hcc hlocal hpart hchanges
  have hi' : i < d.m_configured_channels.gpios.length := by
    rw [ConfiguredChannels.length_gpios]
    exact hi
  obtain ⟨g, hg⟩ : ∃ g, d.m_configured_channels.gpios[i]? = some g :=
    ⟨_, List.getElem?_eq_getElem hi'⟩
  rw [← hcc] at hrange hg
  obtain ⟨e', he', hcc', hlocal', hpart'⟩ := processChannel_partway hrange hg hpart changes
  refine ⟨_, he', hcc'.trans hcc, hlocal'.trans hlocal, hpart', ?_⟩
  rw [hcc] at hg
  rw [hchanges, List.take_add_one, List.any_append, hg]
  simp

/-- **One call of `process`** never faults. It adds to each count the edge from the remembered level
to the level in the word, remembers the new levels, and tells whether some channel rose. -/
theorem process_tallies (hrange : d.m_configured_channels.InRange) (h : Tallies d count level)
    (w : UInt32) :
    ∃ d', d.process w =
        .ok (d', d.m_configured_channels.gpios.any fun g => !level g && bit g w) ∧
      d'.m_configured_channels = d.m_configured_channels ∧
      d'.m_gpioPinAccumulationLocal = d.m_gpioPinAccumulationLocal ∧
      Tallies d' (fun g => count g + Signal.edge (level g) (bit g w)) (fun g => bit g w) := by
  obtain ⟨⟨d', changes⟩, hrun, hcc, hlocal, hpart, hchanges⟩ :
      ∃ s', d.process w = .ok s' ∧
        During d count level w d.m_configured_channels.totalChannels s' :=
    Loop.forUpTo_rule (During d count level w) ⟨rfl, rfl, h.partway w, rfl⟩
      fun i s hi hs => processChannel_during hrange hi hs
  simp only at hcc hlocal hpart hchanges
  rw [List.take_of_length_le (by simp)] at hchanges
  rw [hchanges] at hrun
  refine ⟨d', hrun, hcc, hlocal, hpart.tallies ?_⟩
  rw [hcc]

/-! ## Reading the counts -/

theorem copyChannel_eq {i : Nat} {c : UInt32} (h : d.m_gpioPinAccumulation[i]? = some c) :
    copyChannel i d = .ok { d with
      m_gpioPinAccumulationLocal := d.m_gpioPinAccumulationLocal ++ [c] } := by
  unfold copyChannel
  rw [subscript_eq h]
  rfl

/-- `getResult` returns the counts and leaves a copy of them in the local vector. -/
theorem getResult_eq (d : DecodeGpioRegsAndAccumulate) :
    d.getResult = .ok ({ d with m_gpioPinAccumulationLocal := d.m_gpioPinAccumulation },
      d.m_gpioPinAccumulation) := by
  obtain ⟨d', hrun, hd'⟩ :
      ∃ d', Loop.forUpTo d.m_gpioPinAccumulation.length copyChannel d.clearLocal = .ok d' ∧
        d' = { d with m_gpioPinAccumulationLocal :=
          d.m_gpioPinAccumulation.take d.m_gpioPinAccumulation.length } := by
    refine Loop.forUpTo_rule
      (fun j e => e = { d with m_gpioPinAccumulationLocal := d.m_gpioPinAccumulation.take j })
      rfl ?_
    rintro i e hi rfl
    refine ⟨_, copyChannel_eq (List.getElem?_eq_getElem hi), ?_⟩
    rw [List.take_add_one, List.getElem?_eq_getElem hi]
    rfl
  rw [List.take_length] at hd'
  unfold getResult
  rw [hrun, hd']
  rfl

/-! ## The constructor -/

theorem new_tallies {cc : ConfiguredChannels} (h : new cc = .ok d) :
    d.m_configured_channels = cc ∧ Tallies d (fun _ => 0) (fun _ => false) := by
  unfold new at h
  split at h
  · cases h
  · injection h with h
    subst h
    refine ⟨rfl, ?_, ?_⟩
    · rw [List.map_const', ConfiguredChannels.length_gpios]
      rfl
    · rw [List.map_const', ConfiguredChannels.length_gpios]
      rfl

theorem new_eq_ok {cc : ConfiguredChannels} (h : cc.totalChannels ≠ 0) : ∃ d, new cc = .ok d := by
  unfold new
  rw [if_neg h]
  exact ⟨_, rfl⟩

end DecodeGpioRegsAndAccumulate

end PulseCounter
