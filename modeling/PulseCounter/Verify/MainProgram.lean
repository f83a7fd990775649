import PulseCounter.MainProgram
import PulseCounter.Verify.Acceptance
import PulseCounter.Verify.OptionValues
import PulseCounter.Verify.Resistors
import PulseCounter.Verify.StatusFile

/-!
# The program as a whole

Whether an accepted command line runs depends on the board. With the library of the board that is set up the
start can fail at a resistor, and on a board of the first revision every command line that asks for the
default pins does (`default_pins_start_iff`). Once it runs, a command line with the pins written out has their
counts in its reports, in the order in which they were written (`reports_as_written`).
-/

namespace PulseCounter

open PulseCounterMain ProcessCommandLine

variable {rpi : RPiInterface} {config : PulseCounterConfiguration}

/-! ## How a run starts -/

/-- The first pin in order whose GPIO number is not a bit of the register word. -/
def firstBad (rpi : RPiInterface) (pins : List Int32) : Option Int32 :=
  (pins.map rpi.physPinToGpio).find? fun g => ¬GpioBit g

theorem firstBad_eq_none_iff {pins : List Int32} :
    firstBad rpi pins = none ↔ ∀ pin ∈ pins, GpioBit (rpi.physPinToGpio pin) := by
  unfold firstBad
  rw [List.find?_eq_none]
  simp

section SetUp

variable (hsetup : ¬rpi.wiringPiSetupPhys < 0)

include hsetup

theorem start_of_good (hne : config.activePins ≠ []) (h : firstBad rpi config.activePins = none) :
    ∃ s, start rpi config (.new rpi) = .ok (some s) := by
  obtain ⟨hn, hrange⟩ := ConfiguredChannels.inRange_addChannels
    (ConfiguredChannels.totalChannels_new rpi) hne (firstBad_eq_none_iff.mp h)
  obtain ⟨s, hstart, -⟩ := start_eq_ok .saturating hsetup hn hrange
  exact ⟨s, hstart⟩

end SetUp

theorem main_of_start {parse_command_line : List String → Except String VariablesMap}
    {argv : List String} (h : parse parse_command_line argv {} = (true, config)) :
    main parse_command_line rpi argv = .ofStart config (start rpi config (.new rpi)) := by
  unfold main
  rw [h]

/-! ## On the board -/

section Board

variable {w : WiringPi} {reading : UInt32} {parse_command_line : List String → Except String VariablesMap}
  {argv : List String}

/-- When the resistors can be set, the board is as good as its interface. -/
theorem main_of_settable (h : parse parse_command_line argv {} = (true, config))
    (hset : ∀ pin ∈ config.activePins, w.Settable pin) :
    w.main reading parse_command_line argv = main parse_command_line (w.real reading) argv := by
  unfold WiringPi.main
  rw [h, main_of_start h]
  simp only [WiringPi.performAll_setUp w reading (.new (w.real reading)) hset]

theorem main_of_not_settable (h : parse parse_command_line argv {} = (true, config)) {pin : Int32}
    (hpin : pin ∈ config.activePins) (hset : ¬w.Settable pin) :
    w.main reading parse_command_line argv = .failed (.subscript 4294967295) := by
  unfold WiringPi.main
  rw [h]
  simp only [WiringPi.performAll_setUp_of_not w reading (.new (w.real reading)) hpin hset]

end Board

/-! ## The default pins -/

/-- Boards of one revision have the same pins. -/
theorem physPinToGpio_eq {v w : WiringPi} (h : v.boardRev = w.boardRev) :
    v.physPinToGpio = w.physPinToGpio := by
  funext physPin
  have htable : v.physToGpio = w.physToGpio := by
    unfold WiringPi.physToGpio
    rw [h]
  unfold WiringPi.physPinToGpio
  simp only [htable]

/-- A board of the first revision with all levels low. -/
def firstRevision : WiringPi where
  boardRev := 1
  wiringPiMode := .WPI_MODE_PHYS
  gpio _ := 0
  sysFds := Vector.replicate 64 none
  wiringPiNodes := []

/-- The 26 pins of a board of the first revision do not reach pin 36. -/
theorem not_settable_of_first {w : WiringPi} (h : w.boardRev = 1) : ¬w.Settable 36 := by
  have hfirst : ¬GpioBit (firstRevision.physPinToGpio 36) := by decide
  have hphys : w.physPinToGpio = firstRevision.physPinToGpio := physPinToGpio_eq h
  intro hset
  have hbit := hset (by decide)
  rw [hphys] at hbit
  exact hfirst hbit

theorem carries_default {w : WiringPi} (h : w.boardRev ≠ 1) :
    ∀ pin ∈ defaultPins, GpioBit (w.physPinToGpio pin) := by
  intro pin hpin
  have hphys := congrArg RPiInterface.physPinToGpio (w.real_eq h 0)
  have hsafe := (safe_defaultPins pin hpin).2
  change w.physPinToGpio = RPiInterfaceEmulated.physPinToGpio at hphys
  rw [hphys]
  exact hsafe

/-- **The default pins** are those of a board of the second revision. A command line that is accepted and
asks for them runs on every other board, and on a board of the first revision it looks for the clock register
of no GPIO, outside of the table. -/
theorem default_pins_start_iff (parse_command_line : List String → Except String VariablesMap)
    (argv : List String) (vm : VariablesMap) (pins : List Int32) (state : PullUpState) (text : String)
    (hvm : parse_command_line argv = .ok vm) (hreadable : Readable vm {} pins state)
    (htext : vm.activepins = some text) (hdefault : "default".toList ∈ text.toList.splitOn ',')
    (w : WiringPi) (reading : UInt32) :
    (w.boardRev = 1 → w.main reading parse_command_line argv = .failed (.subscript 4294967295)) ∧
      (w.boardRev ≠ 1 → ∃ s, w.main reading parse_command_line argv =
        .running (fillIn vm defaultPins state {}) s) := by
  have hpins : pins = defaultPins := by
    obtain ⟨text', htext', hstands⟩ := hreadable.activepins
    rw [htext] at htext'
    injection htext' with htext'
    subst htext'
    rcases hstands with ⟨rfl, -⟩ | ⟨-, hpins⟩
    · exact absurd hdefault (by decide)
    · exact pinsOf_of_default hpins hdefault
  subst hpins
  have haccepted := (parse_accepts_iff parse_command_line argv {} _).mpr
    ⟨vm, defaultPins, state, hvm, hreadable, rfl⟩
  have hactive : (fillIn vm defaultPins state {}).activePins = defaultPins := rfl
  refine ⟨fun hfirst => ?_, fun hsecond => ?_⟩
  · have hmem : (36 : Int32) ∈ (fillIn vm defaultPins state {}).activePins := by
      rw [hactive]
      decide
    exact main_of_not_settable haccepted hmem (not_settable_of_first hfirst)
  · have hcarries := carries_default hsecond
    have hsetup : ¬(w.real reading).wiringPiSetupPhys < 0 := by
      change ¬(0 : Int32) < 0
      decide
    obtain ⟨s, hstart⟩ := @start_of_good (w.real reading) (fillIn vm defaultPins state {}) hsetup
      (by decide : defaultPins ≠ []) (firstBad_eq_none_iff.mpr hcarries)
    refine ⟨s, ?_⟩
    rw [main_of_settable haccepted fun pin hpin _ => hcarries pin hpin, main_of_start haccepted, hstart]
    rfl

/-- The default pins and no other option. -/
theorem readable_default :
    Readable { activepins := some "default" } {} defaultPins .PullUpState_Off where
  help := rfl
  level := fun level hlevel => (nomatch hlevel)
  activepins := ⟨"default", rfl, .inr ⟨by decide, by decide⟩⟩
  pullupstate := .inl ⟨by decide, rfl⟩

/-! ## From the command line to the reports -/

/-- What the reports show of the pins of a command line: there is a number of reads such that every pin has
in its place the rises of its bit in what the polling loop passes on of so many reads. -/
def ShowsPins (rpi : RPiInterface) (pins : List Int32) (s : System) (counts : List UInt32) : Prop :=
  ∃ k ≤ s.reads.length, counts = pins.map fun pin => UInt32.ofNat (Signal.rises
    (bit (rpi.physPinToGpio pin)) 0 (passedWords s.runner.m_gpio_channel_mask (s.reads.take k)))

/-- **From the command line to the reports.** Pins that are written out with commas, and that carry bits of
the register word, are counted in the order in which they are written: whatever the interleaving, every
report displayed has the count of each pin in its place, and the header and the status file show the pins
as they are written above them, as long as the register has been read less than `2 ^ 31` times. -/
theorem reports_as_written (p : Platform)
    (parse_command_line : List String → Except String VariablesMap) (rpi : RPiInterface)
    (argv : List String) (vm : VariablesMap) (pins : List Int32) (state : PullUpState)
    (hvm : parse_command_line argv = .ok vm) (hhelp : vm.help = false) (hlevel : LevelReadable vm)
    (hwritten : vm.activepins = some (String.ofList (renderPins pins))) (hne : pins ≠ [])
    (hstate : StateFor .PullUpState_Off (vm.pullupstate.getD (-1)) state)
    (hsetup : ¬rpi.wiringPiSetupPhys < 0) (hbits : ∀ pin ∈ pins, GpioBit (rpi.physPinToGpio pin)) :
    ∃ s₀, main parse_command_line rpi argv = .running (fillIn vm pins state {}) s₀ ∧
      ∀ x, (Threads.machine p rpi (fillIn vm pins state {})).Reachable (.start s₀) x →
        (∀ e ∈ x.system.emitted, ShowsPins rpi pins x.system e.report.result) ∧
        (vm.statusonly = false →
          Decimal.columns x.system.header 1 = some (pins.map fun pin => some pin.toInt)) ∧
        ∀ text, statusFile x.system.emitted = some text → x.system.reads.length < 2 ^ 31 →
          Decimal.columns text 1 = some (pins.map fun pin => some pin.toInt) ∧
            ∃ counts, ShowsPins rpi pins x.system counts ∧
              Decimal.columns text 2 = some (counts.map fun c => some (c.toNat : Int)) := by
  have hreadable : Readable vm {} pins state := by
    refine ⟨hhelp, hlevel, ⟨_, hwritten, .inr ⟨fun hempty => ?_, ?_⟩⟩, hstate⟩
    · have hlist := congrArg String.toList hempty
      rw [String.toList_ofList] at hlist
      exact renderPins_ne_nil hne hlist
    · have hpins := pinsOf_map_showInt [] pins []
      rw [List.append_nil] at hpins
      rw [String.toList_ofList, splitOn_renderPins hne, hpins]
      rfl
  have haccepted := (parse_accepts_iff parse_command_line argv {} _).mpr
    ⟨vm, pins, state, hvm, hreadable, rfl⟩
  have hactive : (fillIn vm pins state {}).activePins = pins := rfl
  obtain ⟨s₀, hstart⟩ := @start_of_good rpi (fillIn vm pins state {}) hsetup hne
    (firstBad_eq_none_iff.mpr hbits)
  refine ⟨s₀, ?_, fun x hx => ?_⟩
  · rw [main_of_start haccepted, hstart]
    rfl
  obtain ⟨-, hn, hrange⟩ := channels_of_start hstart
  obtain ⟨hmask, -, ks, hks, -⟩ := history_of_reachable hstart (.refl _ _) hx
  have hshows : ∀ e ∈ x.system.emitted, ShowsPins rpi pins x.system e.report.result := by
    intro e he
    obtain ⟨k, hk, hresult⟩ := exists_of_forall₂ hks.shows he
    have hgpios := ConfiguredChannels.gpios_addChannels_of_empty
      (ConfiguredChannels.totalChannels_new rpi) pins
    refine ⟨k, hks.reads k hk, ?_⟩
    rw [hresult, countsAfter, hactive, hgpios, List.map_map]
    rfl
  refine ⟨hshows, fun hvisible => ?_, fun text htext hreads => ?_⟩
  · have hstatus : (fillIn vm pins state {}).statusonly = false := hvisible
    have hheader := DisplayData.columns_header (display_hidden hstatus .stdout) []
    rw [List.append_nil, List.map_map] at hheader
    rw [header_of_reachable hstart hx]
    exact hheader
  · obtain ⟨e, he, hfile⟩ := mem_of_statusFile htext
    obtain ⟨hpins, hcounts⟩ := Emission.statusFile?_shows (written_of_reachable hstart hx he)
      (hks.clear hreads he) hfile
    exact ⟨hpins, e.report.result, hshows e he, hcounts⟩

/-- Pins 12 and 11 in this order, with a pulse of pin 11. -/
theorem reports_as_written_two :
    ∃ (s₀ : System) (x : Threads) (config : PulseCounterConfiguration),
      main bindActivePins (RPiInterfaceReal 7) ["PulseCounter", "--activepins", "12,11"] =
        .running config s₀ ∧
      x.system.emitted.map (fun e => e.report.result) = [[0, 1]] ∧
      Decimal.columns x.system.header 1 = some [some 12, some 11] ∧
      ShowsPins (RPiInterfaceReal 7) [12, 11] x.system [0, 1] := by
  obtain ⟨s₀, x, hstart, hexec, hresults⟩ := threads_of_schedule .saturating (RPiInterfaceReal 7)
    { activePins := [12, 11] } (.new (RPiInterfaceReal 7))
    [.readFirst 0, .testRunning, .readNext 0x20000, .lockProcess, .processChannel, .processChannel,
      .unlockProcess, .wake 1000, .clearLocal, .lockGetResult, .copyChannel, .copyChannel,
      .unlockGetResult true, .display]
    (fun x => x.system.emitted.map fun e => e.report.result) [[0, 1]] (by decide +kernel)
  obtain ⟨s₁, hmain, hreports⟩ := reports_as_written .saturating bindActivePins (RPiInterfaceReal 7)
    ["PulseCounter", "--activepins", "12,11"] { activepins := some "12,11" } [12, 11]
    .PullUpState_Off rfl rfl (fun level hlevel => (nomatch hlevel)) (by decide +kernel) (by decide)
    (.inl ⟨by decide, rfl⟩) (by decide) (firstBad_eq_none_iff.mp (by decide))
  have haccepted : parse bindActivePins ["PulseCounter", "--activepins", "12,11"] {} =
      (true, { activePins := [12, 11] }) := by decide +kernel
  have hmain' := @main_of_start (RPiInterfaceReal 7) _ _ _ haccepted
  rw [hstart, hmain] at hmain'
  injection hmain' with _ hsame
  subst hsame
  obtain ⟨hshows, hheader, -⟩ := hreports x (.of_exec hexec)
  obtain ⟨e, he, hresult⟩ := List.mem_map.mp (hresults ▸ List.mem_cons_self :
    [0, 1] ∈ x.system.emitted.map fun e => e.report.result)
  exact ⟨s₁, x, _, hmain, hresults, hheader rfl, hresult ▸ hshows e he⟩

end PulseCounter
