import PulseCounter.Lib.Strobe
import PulseCounter.MainProgram
import PulseCounter.Verify.Channels
import PulseCounter.Verify.StartUp

/-!
# Resistors

The start-up sets the resistor of every configured pin through the pull-up and pull-down registers: it writes
the configured state and clocks it into the GPIO of the pin. Pins outside the board are passed over, although
they are counted on the GPIO of the pin that their number is masked to. So the resistors that have been set
are those of the configured pins of the board, and no other resistor is touched, not even when the start-up is
broken off (`resistors_set`).
-/

namespace PulseCounter

namespace WiringPi

open PulseCounterMain

variable {w : WiringPi} {pin : Int32}

/-! ## The pins that have a resistor -/

/-- A small unsigned number is the same as an `int`. -/
theorem toInt_of_lt {g : Int32} (h : g.toUInt32.toNat < 64) : g.toInt = g.toUInt32.toNat := by
  have hunsigned : g.toUInt32.toNat = g.toBitVec.toNat := rfl
  have hcond := BitVec.toInt_eq_toNat_cond g.toBitVec
  have hvalue : g.toInt = g.toBitVec.toInt := rfl
  rw [if_pos (by omega)] at hcond
  omega

/-- The mask test lets no other pins through. -/
theorem onBoard_of_mask (h : pin.toUInt32 &&& PI_GPIO_MASK = 0) : OnBoard pin := by
  have hsplit : pin.toUInt32 = (pin.toUInt32 &&& PI_GPIO_MASK) ||| (pin.toUInt32 &&& 63) := by
    have hall : PI_GPIO_MASK ||| 63 = -1 := by decide
    apply UInt32.toBitVec_inj.mp
    apply BitVec.eq_of_getLsbD_eq
    intro k hk
    have hbit := congrArg (fun x : UInt32 => x.toBitVec.getLsbD k) hall
    have hone : (-1 : UInt32).toBitVec = BitVec.allOnes 32 := by decide
    simp only [UInt32.toBitVec_or, UInt32.toBitVec_and, BitVec.getLsbD_or, BitVec.getLsbD_and, hone,
      BitVec.getLsbD_allOnes, hk, decide_true] at hbit ⊢
    rw [← Bool.and_or_distrib_left, hbit, Bool.and_true]
  rw [h, UInt32.zero_or] at hsplit
  have hlt : pin.toUInt32.toNat ≤ 63 := by
    rw [hsplit, UInt32.toNat_and]
    exact Nat.and_le_right
  have hvalue := toInt_of_lt (Nat.lt_succ_of_le hlt)
  constructor
  · refine Int32.le_iff_toInt_le.mpr ?_
    change 0 ≤ pin.toInt
    omega
  · refine Int32.le_iff_toInt_le.mpr ?_
    change pin.toInt ≤ 63
    omega

/-- A pin carries a bit of the register word or nothing at all. -/
theorem physPinToGpio_cases (w : WiringPi) (pin : Int32) :
    w.physPinToGpio pin = -1 ∨ GpioBit (w.physPinToGpio pin) := by
  have hfirst : ∀ k (hk : k < 64), physToGpioR1[k] = (-1 : Int32) ∨ GpioBit physToGpioR1[k] := by decide
  have hsecond : ∀ k (hk : k < 64), physToGpioR2[k] = (-1 : Int32) ∨ GpioBit physToGpioR2[k] := by decide
  unfold physPinToGpio physToGpio
  by_cases h : w.boardRev = 1
  · simp only [if_pos h]
    exact hfirst _ (and_63_lt pin)
  · simp only [if_neg h]
    exact hsecond _ (and_63_lt pin)

/-! ## The writes for one pin -/

/-- The writes for a GPIO that is a bit of the register word. -/
def strobeWrites (pud g : Int32) : List RegisterWrite :=
  [⟨GPPUD, (pud &&& 3).toUInt32⟩, ⟨38, 1 <<< g.toUInt32⟩, ⟨GPPUD, 0⟩, ⟨38, 0⟩]

/-- The writes for a pin that carries a GPIO or is not on the board. -/
def writesFor (w : WiringPi) (pud pin : Int32) : List RegisterWrite :=
  if OnBoard pin then strobeWrites pud (w.physPinToGpio pin) else []

/-- A pin of the board that carries no GPIO has no clock register. -/
def Settable (w : WiringPi) (pin : Int32) : Prop := OnBoard pin → GpioBit (w.physPinToGpio pin)

instance (w : WiringPi) (pin : Int32) : Decidable (w.Settable pin) :=
  inferInstanceAs (Decidable (_ → _))

theorem element_gpioToPUDCLK {g : Int32} (h : GpioBit g) : element gpioToPUDCLK g = .ok 38 := by
  have htable : ∀ k (hk : k < 32), gpioToPUDCLK[k] = 38 := by decide
  obtain ⟨hlt, hindex⟩ := h.toNat
  rw [element_eq gpioToPUDCLK hindex (by omega), htable _ hlt]

theorem pullUpDnControl_eq (hmode : w.wiringPiMode = .WPI_MODE_PHYS) (pud : Int32) :
    w.pullUpDnControl pin pud =
      if w.Settable pin then .ok (w.writesFor pud pin) else .error (.subscript 4294967295) := by
  unfold pullUpDnControl
  by_cases hpin : OnBoard pin
  · obtain ⟨hmask, hindex⟩ := hpin.index
    rw [if_pos hmask, hmode]
    change (element w.physToGpio pin).bind (clockResistor · pud) = _
    rw [element_eq w.physToGpio hindex (and_63_lt pin)]
    change clockResistor (w.physPinToGpio pin) pud = _
    rcases w.physPinToGpio_cases pin with hnone | hbit
    · have hunset : ¬w.Settable pin := by
        intro hset
        have hbit := hset hpin
        rw [hnone] at hbit
        exact absurd hbit (by decide)
      rw [hnone, if_neg hunset]
      rfl
    · have hset : w.Settable pin := fun _ => hbit
      rw [if_pos hset]
      unfold clockResistor writesFor
      rw [element_gpioToPUDCLK hbit, if_pos hpin, hbit.and_31]
      rfl
  · have hmask : ¬pin.toUInt32 &&& PI_GPIO_MASK = 0 := fun h => hpin (onBoard_of_mask h)
    have hset : w.Settable pin := fun h => absurd h hpin
    unfold writesFor
    rw [if_neg hmask, if_pos hset, if_neg hpin]
    rfl

/-! ## The writes of the start-up -/

theorem performAll_cons (call : Call) (calls : List Call) :
    w.performAll (call :: calls) = (w.perform call).bind fun x =>
      (x.1.performAll calls).map (x.2 ++ ·) := by
  change (w.perform call).bind (fun x => (x.1.performAll calls).bind fun rest => .ok (x.2 ++ rest)) = _
  refine congrArg _ (funext fun x => ?_)
  cases x.1.performAll calls <;> rfl

theorem performAll_cons_of_silent {call : Call} {w' : WiringPi} (h : w.perform call = .ok (w', []))
    (calls : List Call) : w.performAll (call :: calls) = w'.performAll calls := by
  rw [performAll_cons, h]
  change (w'.performAll calls).map ([] ++ ·) = _
  cases w'.performAll calls <;> rfl

theorem performAll_callsFor (hmode : w.wiringPiMode = .WPI_MODE_PHYS) (config : PulseCounterConfiguration)
    (pins : List Int32) : w.performAll (pins.flatMap (callsFor config)) =
      if pins.all fun pin => w.Settable pin then
        .ok (pins.flatMap (w.writesFor config.pullUpDownState.toInt))
      else .error (.subscript 4294967295) := by
  induction pins with
  | nil => rfl
  | cons pin pins ih =>
    have hfirst : w.performAll ((pin :: pins).flatMap (callsFor config)) =
        (w.pullUpDnControl pin config.pullUpDownState.toInt).bind fun writes =>
          (w.performAll (pins.flatMap (callsFor config))).map (writes ++ ·) := by
      rw [List.flatMap_cons, callsFor, List.cons_append, List.cons_append, List.cons_append, List.nil_append,
        performAll_cons_of_silent rfl, performAll_cons_of_silent rfl, performAll_cons]
      have hperform : w.perform (.pullUpDnControl pin config.pullUpDownState.toInt) =
          (w.pullUpDnControl pin config.pullUpDownState.toInt).bind fun writes => .ok (w, writes) := rfl
      rw [hperform]
      cases w.pullUpDnControl pin config.pullUpDownState.toInt <;> rfl
    rw [hfirst, pullUpDnControl_eq hmode, ih, List.all_cons]
    by_cases hpin : w.Settable pin
    · rw [if_pos hpin, decide_eq_true hpin, Bool.true_and]
      split <;> rfl
    · rw [if_neg hpin, decide_eq_false hpin, Bool.false_and]
      rfl

theorem setUp_real (w : WiringPi) (reading : UInt32) (config : PulseCounterConfiguration)
    (cc : ConfiguredChannels) : (setUp (w.real reading) config cc).2 =
      .wiringPiSetupPhys :: config.activePins.flatMap (callsFor config) := by
  have hsetup : ¬(w.real reading).wiringPiSetupPhys < 0 := by
    change ¬(0 : Int32) < 0
    decide
  rw [setUp_eq hsetup]

section SetUp

variable (w : WiringPi) (reading : UInt32) {config : PulseCounterConfiguration} (cc : ConfiguredChannels)

theorem performAll_setUp (h : ∀ pin ∈ config.activePins, w.Settable pin) :
    w.performAll (setUp (w.real reading) config cc).2 =
      .ok (config.activePins.flatMap (w.writesFor config.pullUpDownState.toInt)) := by
  have hall : (config.activePins.all fun pin => w.Settable pin) = true :=
    List.all_eq_true.mpr fun pin hpin => decide_eq_true (h pin hpin)
  rw [setUp_real, performAll_cons_of_silent rfl]
  exact (performAll_callsFor rfl config config.activePins).trans (if_pos hall)

theorem performAll_setUp_of_not {pin : Int32} (hpin : pin ∈ config.activePins) (h : ¬w.Settable pin) :
    w.performAll (setUp (w.real reading) config cc).2 = .error (.subscript 4294967295) := by
  have hall : ¬(config.activePins.all fun pin => w.Settable pin) = true :=
    fun hall => h (of_decide_eq_true (List.all_eq_true.mp hall pin hpin))
  rw [setUp_real, performAll_cons_of_silent rfl]
  exact (performAll_callsFor rfl config config.activePins).trans (if_neg hall)

end SetUp

/-! ## Clocking -/

/-- The resistors, by GPIO number, with the control word that is presented to them. -/
abbrev Resistors := Strobe.Lines Int32 UInt32

/-- What a write is to the resistors: each of the clock registers is a bank of them. -/
def RegisterWrite.access (x : RegisterWrite) : Strobe.Access Int32 UInt32 :=
  if x.offset = GPPUD then .present x.value
  else .clock (fun g => gpioToPUDCLK[g.toUInt32.toNat]? = some x.offset) fun g => bit (g &&& 31) x.value

/-- The resistors after the writes. -/
def Resistors.after (s : Resistors) (writes : List RegisterWrite) : Resistors :=
  s.run (writes.map RegisterWrite.access)

theorem gpioBit_of_clock {g : Int32} (h : gpioToPUDCLK[g.toUInt32.toNat]? = some 38) : GpioBit g := by
  have htable : ∀ k (hk : k < 64), gpioToPUDCLK[k] = 38 → k < 32 := by decide
  obtain ⟨hlt, hclock⟩ := Vector.getElem?_eq_some_iff.mp h
  have hbit := htable _ hlt hclock
  have hvalue := toInt_of_lt hlt
  constructor
  · refine Int32.le_iff_toInt_le.mpr ?_
    change 0 ≤ g.toInt
    omega
  · refine Int32.le_iff_toInt_le.mpr ?_
    change g.toInt ≤ 31
    omega

theorem clock_of_gpioBit {g : Int32} (h : GpioBit g) : gpioToPUDCLK[g.toUInt32.toNat]? = some 38 := by
  have htable : ∀ k (hk : k < 32), gpioToPUDCLK[k] = 38 := by decide
  obtain ⟨hlt, hindex⟩ := h.toNat
  rw [hindex, Vector.getElem?_eq_getElem (by omega), htable _ hlt]

theorem and_31_of_gpioBit {g : Int32} (h : GpioBit g) : g &&& 31 = g := by
  have htable : ∀ k < 32, Int32.ofNat k &&& 31 = Int32.ofNat k := by decide
  have hg := htable _ h.toNat.1
  rw [Int32.ofNat_toNatClampNeg g h.1] at hg
  exact hg

/-- The GPIOs that are clocked by the first clock register, and the levels that the writes give them. -/
def clockBank (j : Int32) : Bool := gpioToPUDCLK[j.toUInt32.toNat]? = some 38

def clockLevel (g j : Int32) : Bool := bit (j &&& 31) (1 <<< g.toUInt32)

def clockOff (j : Int32) : Bool := bit (j &&& 31) 0

theorem selects {g : Int32} (h : GpioBit g) : Strobe.Selects clockBank (clockLevel g) clockOff g := by
  refine ⟨decide_eq_true (clock_of_gpioBit h), fun j hj => ?_, fun j _ => bit_zero _⟩
  have hbit := gpioBit_of_clock (of_decide_eq_true hj)
  unfold clockLevel
  rw [and_31_of_gpioBit hbit, h.bit_shift hbit, decide_eq_true_iff]

/-- The writes for GPIOs are strobes of their resistors. -/
theorem map_access (pud : Int32) (gpios : List Int32) :
    (gpios.flatMap (strobeWrites pud)).map RegisterWrite.access =
      gpios.flatMap fun g => Strobe.strobe clockBank (clockLevel g) clockOff (pud &&& 3).toUInt32 0 := by
  rw [List.map_flatMap]
  rfl

/-! ## The resistors of the configured pins -/

/-- The GPIO numbers of the pins that are on the board. -/
def configuredGpios (w : WiringPi) (pins : List Int32) : List Int32 :=
  (pins.filter fun pin => OnBoard pin).map w.physPinToGpio

theorem flatMap_writesFor (w : WiringPi) (pud : Int32) (pins : List Int32) :
    pins.flatMap (w.writesFor pud) = (w.configuredGpios pins).flatMap (strobeWrites pud) := by
  unfold configuredGpios
  induction pins with
  | nil => rfl
  | cons pin pins ih =>
    rw [List.flatMap_cons, ih, writesFor]
    by_cases hpin : OnBoard pin
    · rw [if_pos hpin, List.filter_cons, if_pos (decide_eq_true hpin), List.map_cons, List.flatMap_cons]
    · rw [if_neg hpin, List.filter_cons, if_neg (by rwa [decide_eq_true_iff]), List.nil_append]

theorem and_3_toInt (state : PullUpState) : (state.toInt &&& 3).toUInt32 = state.toInt.toUInt32 := by
  cases state <;> rfl

/-- **The resistors that the start-up sets**, when no clock is up before and a resistor takes over the control
word that is presented when its clock goes up. The start-up fails at the first pin of the board that carries
no GPIO. Otherwise it writes to the control register and the first clock register only, the resistors of the
pins of the board end with the configured state and no clock is left up, and after any part of the writes
every resistor holds what it held before or the configured state, and those of other GPIOs have not been
clocked. -/
theorem resistors_set (w : WiringPi) (reading : UInt32) (config : PulseCounterConfiguration)
    (cc : ConfiguredChannels) (s : Resistors) (hidle : s.Idle) :
    ((∃ pin ∈ config.activePins, OnBoard pin ∧ ¬GpioBit (w.physPinToGpio pin)) →
      w.performAll (setUp (w.real reading) config cc).2 = .error (.subscript 4294967295)) ∧
    ((∀ pin ∈ config.activePins, OnBoard pin → GpioBit (w.physPinToGpio pin)) →
      ∃ writes, w.performAll (setUp (w.real reading) config cc).2 = .ok writes ∧
        (∀ x ∈ writes, x.offset = GPPUD ∨ x.offset = 38) ∧ (s.after writes).Idle ∧
        (∀ pin ∈ config.activePins, OnBoard pin →
          (s.after writes).held (w.physPinToGpio pin) = config.pullUpDownState.toInt.toUInt32) ∧
        ∀ k, Strobe.Lines.Within (fun g => ∃ pin ∈ config.activePins, OnBoard pin ∧ w.physPinToGpio pin = g)
          config.pullUpDownState.toInt.toUInt32 s (s.after (writes.take k))) := by
  constructor
  · rintro ⟨pin, hpin, honBoard, hnone⟩
    exact performAll_setUp_of_not w reading cc hpin fun hset => hnone (hset honBoard)
  · intro hset
    refine ⟨_, performAll_setUp w reading cc hset, ?_⟩
    rw [flatMap_writesFor]
    have hselects : ∀ g ∈ w.configuredGpios config.activePins,
        Strobe.Selects clockBank (clockLevel g) clockOff (id g) := by
      intro g hg
      obtain ⟨pin, hpin, rfl⟩ := List.mem_map.mp hg
      obtain ⟨hactive, honBoard⟩ := List.mem_filter.mp hpin
      exact selects (hset pin hactive (of_decide_eq_true honBoard))
    have hafter : ∀ writes, s.after writes = s.run (writes.map RegisterWrite.access) := fun _ => rfl
    obtain ⟨hoff, hheld⟩ := Strobe.run_strobes (config.pullUpDownState.toInt &&& 3).toUInt32 0 hselects hidle
    rw [and_3_toInt, List.map_id] at hheld
    refine ⟨fun x hx => ?_, ?_, fun pin hpin honBoard => ?_, fun k => ?_⟩
    · obtain ⟨g, -, hwrite⟩ := List.mem_flatMap.mp hx
      unfold strobeWrites at hwrite
      simp only [List.mem_cons, List.not_mem_nil, or_false] at hwrite
      rcases hwrite with rfl | rfl | rfl | rfl
      · exact .inl rfl
      · exact .inr rfl
      · exact .inl rfl
      · exact .inr rfl
    · rw [hafter, map_access]
      exact hoff
    · rw [hafter, map_access, and_3_toInt]
      exact hheld _ (List.mem_map_of_mem (List.mem_filter.mpr ⟨hpin, decide_eq_true honBoard⟩))
    · have hwithin := Strobe.run_take_strobes (config.pullUpDownState.toInt &&& 3).toUInt32 0 hselects hidle k
      rw [hafter, List.map_take, map_access]
      rw [and_3_toInt, List.map_id] at hwithin
      rw [and_3_toInt]
      refine hwithin.mono fun g hg => ?_
      obtain ⟨pin, hpin, rfl⟩ := List.mem_map.mp hg
      obtain ⟨hactive, honBoard⟩ := List.mem_filter.mp hpin
      exact ⟨pin, hactive, of_decide_eq_true honBoard, rfl⟩

/-- A board of the second revision with all levels low. -/
def secondRevision : WiringPi where
  boardRev := 2
  wiringPiMode := .WPI_MODE_UNINITIALISED
  gpio _ := 0
  sysFds := Vector.replicate 64 none
  wiringPiNodes := []

/-- Pin 76 is counted on the GPIO of pin 12, whose resistor is not set. -/
theorem resistors_set_masked :
    let rpi := secondRevision.real 7
    let config : PulseCounterConfiguration := { activePins := [11, 76], pullUpDownState := .PullUpState_Up }
    let s : Resistors := { presented := 0, clock := fun _ => false, held := fun _ => 0 }
    ∃ writes, secondRevision.performAll (setUp rpi config (.new rpi)).2 = .ok writes ∧
      (s.after writes).held 17 = 2 ∧ (s.after writes).held 18 = 0 ∧
      ((ConfiguredChannels.new rpi).addChannels config.activePins).gpios = [17, 18] := by
  intro rpi config s
  obtain ⟨writes, hperform, -, -, hheld, hwithin⟩ :=
    (resistors_set secondRevision 7 config (.new rpi) s fun _ => rfl).2
      (List.forall_mem_cons.mpr ⟨by decide, List.forall_mem_singleton.mpr (by decide)⟩)
  have hall := hwithin writes.length
  rw [List.take_length] at hall
  refine ⟨writes, hperform, hheld 11 List.mem_cons_self (by decide), ?_, by decide +kernel⟩
  refine hall.held 18 ?_
  rintro ⟨pin, hpin, honBoard, hgpio⟩
  rcases List.mem_cons.mp hpin with rfl | hpin
  · exact absurd hgpio (by decide)
  · rw [List.mem_singleton.mp hpin] at honBoard
    exact absurd honBoard (by decide)

end WiringPi

end PulseCounter
