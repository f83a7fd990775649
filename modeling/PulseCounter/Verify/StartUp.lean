import PulseCounter.PulseCounterMain

/-!
# The calls of the start-up

When the set-up of the hardware succeeds, the loop over the active pins makes the same three calls for
each of them in order (`setUp_eq`). So every pin is added to the channel table, and every pin's
resistor is set to the configured state, the state that stands for leaving the resistors alone
included.
-/

namespace PulseCounter.PulseCounterMain

variable {rpi : RPiInterface} {config : PulseCounterConfiguration}

/-- The calls for one active pin. -/
def callsFor (config : PulseCounterConfiguration) (activePin : Int32) : List Call :=
  [.addChannel activePin, .physPinToGpio activePin,
    .pullUpDnControl activePin config.pullUpDownState.toInt]

theorem foldl_configurePin (cc : ConfiguredChannels) (calls : List Call) (pins : List Int32) :
    pins.foldl (configurePin config) (cc, calls) =
      (cc.addChannels pins, calls ++ pins.flatMap (callsFor config)) := by
  induction pins generalizing cc calls with
  | nil => simp [ConfiguredChannels.addChannels]
  | cons pin pins ih =>
    rw [List.foldl_cons, configurePin, ih, List.flatMap_cons, List.append_assoc]
    rfl

theorem setUp_eq (hsetup : ¬rpi.wiringPiSetupPhys < 0) (cc : ConfiguredChannels) :
    setUp rpi config cc = (some (cc.addChannels config.activePins),
      .wiringPiSetupPhys :: config.activePins.flatMap (callsFor config)) := by
  unfold setUp
  rw [if_neg hsetup, foldl_configurePin]
  rfl

/-! ## Pins added and resistors set -/

/-- The pins that are added to the channel table, in order. -/
def addedPins (calls : List Call) : List Int32 :=
  calls.filterMap fun
    | .addChannel pin => some pin
    | _ => none

/-- The pins whose resistor is set, in order, with the values. -/
def resistorsSet (calls : List Call) : List (Int32 × Int32) :=
  calls.filterMap fun
    | .pullUpDnControl pin pud => some (pin, pud)
    | _ => none

/-- The resistors a configuration asks to set: none when it leaves them alone. -/
def resistorsConfigured (config : PulseCounterConfiguration) : List (Int32 × Int32) :=
  if config.pullUpDownState = .PullUpState_NotInitialised then []
  else config.activePins.map fun pin => (pin, config.pullUpDownState.toInt)

theorem addedPins_callsFor (pins : List Int32) :
    addedPins (.wiringPiSetupPhys :: pins.flatMap (callsFor config)) = pins := by
  change addedPins (pins.flatMap (callsFor config)) = pins
  induction pins with
  | nil => rfl
  | cons pin pins ih =>
    change pin :: addedPins (pins.flatMap (callsFor config)) = pin :: pins
    rw [ih]

theorem resistorsSet_callsFor (pins : List Int32) :
    resistorsSet (.wiringPiSetupPhys :: pins.flatMap (callsFor config)) =
      pins.map fun pin => (pin, config.pullUpDownState.toInt) := by
  change resistorsSet (pins.flatMap (callsFor config)) = _
  induction pins with
  | nil => rfl
  | cons pin pins ih =>
    change (pin, config.pullUpDownState.toInt) :: resistorsSet (pins.flatMap (callsFor config)) = _
    rw [ih, List.map_cons]

/-- The calls are those the configuration asks for: none on a pin after a failed set-up, otherwise
every active pin added once and its resistor set once, in order. -/
structure AsConfigured (rpi : RPiInterface) (config : PulseCounterConfiguration)
    (calls : List Call) : Prop where
  failed : rpi.wiringPiSetupPhys < 0 → addedPins calls = [] ∧ resistorsSet calls = []
  added : ¬rpi.wiringPiSetupPhys < 0 → addedPins calls = config.activePins
  resistors : ¬rpi.wiringPiSetupPhys < 0 → resistorsSet calls = resistorsConfigured config

/-- **The start-up touches the hardware as configured** unless there are pins whose resistors should
be left alone. -/
theorem setUp_asConfigured_iff (rpi : RPiInterface) (config : PulseCounterConfiguration)
    (cc : ConfiguredChannels) :
    AsConfigured rpi config (setUp rpi config cc).2 ↔
      rpi.wiringPiSetupPhys < 0 ∨ config.pullUpDownState ≠ .PullUpState_NotInitialised ∨
        config.activePins = [] := by
  by_cases hsetup : rpi.wiringPiSetupPhys < 0
  · have hcalls : (setUp rpi config cc).2 = [.wiringPiSetupPhys] := by
      unfold setUp
      rw [if_pos hsetup]
    rw [hcalls]
    exact ⟨fun _ => Or.inl hsetup,
      fun _ => ⟨fun _ => ⟨rfl, rfl⟩, fun h => absurd hsetup h, fun h => absurd hsetup h⟩⟩
  · rw [setUp_eq hsetup]
    have hset : resistorsSet (.wiringPiSetupPhys :: config.activePins.flatMap (callsFor config)) = _ :=
      resistorsSet_callsFor config.activePins
    constructor
    · intro h
      have hresistors := h.resistors hsetup
      rw [hset, resistorsConfigured] at hresistors
      by_cases hstate : config.pullUpDownState = .PullUpState_NotInitialised
      · rw [if_pos hstate, List.map_eq_nil_iff] at hresistors
        exact Or.inr (Or.inr hresistors)
      · exact Or.inr (Or.inl hstate)
    · intro h
      refine ⟨fun hneg => absurd hneg hsetup, fun _ => addedPins_callsFor _, fun _ => ?_⟩
      rw [hset, resistorsConfigured]
      rcases h with hneg | hstate | hnil
      · exact absurd hneg hsetup
      · rw [if_neg hstate]
      · rw [hnil]
        split <;> rfl

/-- A pin whose resistor should not be initialised has it set all the same. -/
theorem setUp_sets_uninitialised :
    ¬∀ (rpi : RPiInterface) (config : PulseCounterConfiguration) (cc : ConfiguredChannels),
      AsConfigured rpi config (setUp rpi config cc).2 := by
  intro h
  have hset := (h (RPiInterfaceEmulated 0)
    { activePins := [11], pullUpDownState := .PullUpState_NotInitialised }
    (.new (RPiInterfaceEmulated 0))).resistors (by decide)
  exact absurd hset (by decide)

end PulseCounter.PulseCounterMain
