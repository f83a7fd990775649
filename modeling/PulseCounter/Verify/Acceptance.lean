import PulseCounter.Verify.CommandLine

/-!
# Which command lines are accepted

A step of `parse` that succeeds changes some fields of the configuration, and each of them to a value that
the options alone determine. So an accepted command line fills in the configuration in one way only, and it
is accepted exactly when every value it has is one that `parse` can read (`parse_accepts_iff`).
-/

namespace PulseCounter

namespace ProcessCommandLine

/-! ## The steps one by one -/

section Steps

variable {α β : Type} {vm : VariablesMap} {config config' : PulseCounterConfiguration}

theorem run_bind_eq_ok_iff {x : Parse α} {f : α → Parse β} {b : β} :
    (x >>= f).run config = .ok b config' ↔
      ∃ a c, x.run config = .ok a c ∧ (f a).run c = .ok b config' := by
  constructor
  · exact run_bind_eq_ok
  · rintro ⟨a, c, hx, hf⟩
    change EStateM.bind x f config = .ok b config'
    change x config = .ok a c at hx
    unfold EStateM.bind
    rw [hx]
    exact hf

/-- The level of the log is a digit, which is all that is looked at. -/
def LevelReadable (vm : VariablesMap) : Prop :=
  ∀ level, vm.debug = some level → ∃ i, intLiteral [level.toList.headD '\x00'] = some i

theorem setStatusOnly_run : (setStatusOnly vm).run config =
    .ok () { config with statusonly := config.statusonly || vm.statusonly } := by
  unfold setStatusOnly
  cases vm.statusonly with
  | false =>
    rw [Bool.or_false]
    rfl
  | true =>
    rw [Bool.or_true]
    rfl

theorem setDebug_run_iff : (setDebug vm).run config = .ok () config' ↔
    LevelReadable vm ∧ config' = { config with showDebug := config.showDebug || vm.debug.isSome } := by
  unfold setDebug LevelReadable
  cases hdebug : vm.debug with
  | none =>
    rw [Option.isSome_none, Bool.or_false]
    constructor
    · intro h
      injection h with _ h
      exact ⟨fun level hlevel => (nomatch hlevel), h.symm⟩
    · rintro ⟨-, rfl⟩
      rfl
  | some level =>
    rw [Option.isSome_some, Bool.or_true]
    simp only [run_bind_eq_ok_iff, lexical_cast]
    cases hlevel : intLiteral [level.toList.headD '\x00'] with
    | none =>
      constructor
      · rintro ⟨i, c, h, -⟩
        cases h
      · rintro ⟨hreadable, -⟩
        obtain ⟨i, hi⟩ := hreadable level rfl
        rw [hlevel] at hi
        cases hi
    | some i =>
      constructor
      · rintro ⟨j, c, hcast, hmodify⟩
        injection hcast with _ hc
        injection hmodify with _ hconfig
        subst hc
        refine ⟨fun level' h' => ?_, hconfig.symm⟩
        injection h' with h'
        rw [← h']
        exact ⟨i, hlevel⟩
      · rintro ⟨-, rfl⟩
        exact ⟨i, config, rfl, rfl⟩

theorem notify_run_iff : (notify vm).run config = .ok () config' ↔
    (∃ text, vm.activepins = some text) ∧ config' = { config with
      cpuRestPeriod := vm.cpuRestPeriod.getD config.cpuRestPeriod
      duration := vm.duration.getD config.duration
      statusfname := vm.statusfname.getD config.statusfname } := by
  unfold notify
  cases vm.activepins with
  | none =>
    constructor
    · intro h
      cases h
    · rintro ⟨⟨text, htext⟩, -⟩
      cases htext
  | some text =>
    constructor
    · intro h
      injection h with _ h
      exact ⟨⟨text, rfl⟩, h.symm⟩
    · rintro ⟨-, rfl⟩
      rfl

/-- The pins that a list stands for, after the pins `before`. -/
def StandsFor (before : List Int32) (text : String) (pins : List Int32) : Prop :=
  text = "" ∧ pins = before ∨ text ≠ "" ∧ pinsOf before (text.toList.splitOn ',') = some pins

theorem readActivePins_run_iff {text : String} : (readActivePins text).run config = .ok () config' ↔
    ∃ pins, StandsFor config.activePins text pins ∧ config' = { config with activePins := pins } := by
  unfold StandsFor
  by_cases hempty : text = ""
  · constructor
    · intro h
      unfold readActivePins at h
      rw [if_neg (not_not.mpr hempty)] at h
      injection h with _ h
      exact ⟨_, .inl ⟨hempty, rfl⟩, h.symm⟩
    · rintro ⟨pins, ⟨-, rfl⟩ | ⟨hne, -⟩, rfl⟩
      · unfold readActivePins
        rw [if_neg (not_not.mpr hempty)]
        rfl
      · exact absurd hempty hne
  · rw [readActivePins_run hempty]
    have hloop := forLines_activePin (text.toList.splitOn ',') config
    cases hpins : pinsOf config.activePins (text.toList.splitOn ',') with
    | none =>
      rw [hpins] at hloop
      obtain ⟨e, c, hthrow⟩ := hloop
      rw [hthrow]
      constructor
      · intro h
        cases h
      · rintro ⟨pins, ⟨h, -⟩ | ⟨-, hpins'⟩, -⟩
        · exact absurd h hempty
        · cases hpins'
    | some pins =>
      rw [hpins] at hloop
      simp only at hloop
      rw [hloop]
      constructor
      · intro h
        injection h with _ h
        exact ⟨pins, .inr ⟨hempty, rfl⟩, h.symm⟩
      · rintro ⟨pins', ⟨h, -⟩ | ⟨-, hpins'⟩, rfl⟩
        · exact absurd h hempty
        · injection hpins' with hpins'
          rw [hpins']

/-- The state of the resistors that a number asks for; a negative one leaves it as it was. -/
def StateFor (before : PullUpState) (pullupstate : Int32) (state : PullUpState) : Prop :=
  pullupstate < 0 ∧ state = before ∨ 0 ≤ pullupstate ∧ pullUpStateOf pullupstate = some state

theorem setPullUpState_run_iff {pullupstate : Int32} :
    (setPullUpState pullupstate).run config = .ok true config' ↔
      ∃ state, StateFor config.pullUpDownState pullupstate state ∧
        config' = { config with pullUpDownState := state } := by
  unfold setPullUpState StateFor
  by_cases hpos : 0 ≤ pullupstate
  · have hneg : ¬pullupstate < 0 := Int32.not_lt.mpr hpos
    rw [if_pos hpos]
    cases hstate : pullUpStateOf pullupstate with
    | none =>
      constructor
      · intro h
        injection h with h _
        cases h
      · rintro ⟨state, ⟨h, -⟩ | ⟨-, h⟩, -⟩
        · exact absurd h hneg
        · cases h
    | some state =>
      constructor
      · intro h
        injection h with _ h
        exact ⟨state, .inr ⟨hpos, rfl⟩, h.symm⟩
      · rintro ⟨state', ⟨h, -⟩ | ⟨-, h⟩, rfl⟩
        · exact absurd h hneg
        · injection h with h
          rw [h]
          rfl
  · rw [if_neg hpos]
    constructor
    · intro h
      injection h with _ h
      exact ⟨_, .inl ⟨Int32.not_le.mp hpos, rfl⟩, h.symm⟩
    · rintro ⟨state, ⟨-, rfl⟩ | ⟨h, -⟩, rfl⟩
      · rfl
      · exact absurd h hpos

end Steps

/-! ## The whole command line -/

/-- The configuration filled in with the values of the options; the pins and the state of the resistors
are given. -/
def fillIn (vm : VariablesMap) (pins : List Int32) (state : PullUpState)
    (config : PulseCounterConfiguration) : PulseCounterConfiguration where
  showDebug := config.showDebug || vm.debug.isSome
  duration := vm.duration.getD config.duration
  pullUpDownState := state
  statusonly := config.statusonly || vm.statusonly
  statusfname := vm.statusfname.getD config.statusfname
  activePins := pins
  cpuRestPeriod := vm.cpuRestPeriod.getD config.cpuRestPeriod

/-- The values of the options can be read: there is a pin list, it stands for `pins`, and the number for
the resistors asks for `state`. -/
structure Readable (vm : VariablesMap) (config : PulseCounterConfiguration) (pins : List Int32)
    (state : PullUpState) : Prop where
  help : vm.help = false
  level : LevelReadable vm
  activepins : ∃ text, vm.activepins = some text ∧ StandsFor config.activePins text pins
  pullupstate : StateFor config.pullUpDownState (vm.pullupstate.getD (-1)) state

theorem parseOptions_run_iff (vm : VariablesMap) (config config' : PulseCounterConfiguration) :
    (parseOptions vm).run config = .ok true config' ↔
      ∃ pins state, Readable vm config pins state ∧ config' = fillIn vm pins state config := by
  unfold parseOptions
  cases hhelp : vm.help with
  | true =>
    constructor
    · intro h
      injection h with h _
      cases h
    · rintro ⟨pins, state, hreadable, -⟩
      have hno := hreadable.help
      rw [hhelp] at hno
      cases hno
  | false =>
    rw [if_neg Bool.false_ne_true]
    simp only [run_bind_eq_ok_iff]
    constructor
    · rintro ⟨⟨⟩, c₁, hstatus, ⟨⟩, c₂, hdebug, ⟨⟩, c₃, hnotify, ⟨⟩, c₄, hpins, hstate⟩
      rw [setStatusOnly_run] at hstatus
      injection hstatus with _ hstatus
      subst hstatus
      obtain ⟨hlevel, rfl⟩ := setDebug_run_iff.mp hdebug
      obtain ⟨⟨text, htext⟩, rfl⟩ := notify_run_iff.mp hnotify
      obtain ⟨pins, hstands, rfl⟩ := readActivePins_run_iff.mp hpins
      obtain ⟨state, hasks, rfl⟩ := setPullUpState_run_iff.mp hstate
      rw [htext] at hstands
      exact ⟨pins, state, ⟨hhelp, hlevel, ⟨text, htext, hstands⟩, hasks⟩, rfl⟩
    · rintro ⟨pins, state, ⟨-, hlevel, ⟨text, htext, hstands⟩, hasks⟩, rfl⟩
      refine ⟨(), _, setStatusOnly_run, (), _, setDebug_run_iff.mpr ⟨hlevel, rfl⟩, (), _,
        notify_run_iff.mpr ⟨⟨text, htext⟩, rfl⟩, (), _,
        readActivePins_run_iff.mpr ⟨pins, ?_, rfl⟩, setPullUpState_run_iff.mpr ⟨state, hasks, rfl⟩⟩
      rw [htext]
      exact hstands

/-- **What is accepted, and as what.** A command line is accepted exactly when the options library takes it,
no help is asked for, there is a pin list, and the pin list, the level of the log and the number for the
resistors can be read. Then the configuration is the one from before with the values filled in, and nothing
else changed. -/
theorem parse_accepts_iff (parse_command_line : List String → Except String VariablesMap)
    (argv : List String) (config config' : PulseCounterConfiguration) :
    parse parse_command_line argv config = (true, config') ↔
      ∃ vm pins state, parse_command_line argv = .ok vm ∧ Readable vm config pins state ∧
        config' = fillIn vm pins state config := by
  unfold parse
  cases hvm : parse_command_line argv with
  | error what =>
    constructor
    · intro h
      cases h
    · rintro ⟨vm, pins, state, h, -⟩
      cases h
  | ok vm =>
    have hrun := parseOptions_run_iff vm config config'
    constructor
    · intro h
      simp only at h
      split at h
      · next accepted c hok =>
        injection h with haccepted hconfig
        subst haccepted hconfig
        obtain ⟨pins, state, hreadable, hfilled⟩ := hrun.mp hok
        exact ⟨vm, pins, state, rfl, hreadable, hfilled⟩
      · cases h
    · rintro ⟨vm', pins, state, h, hreadable, hfilled⟩
      injection h with h
      subst h
      have hok := hrun.mpr ⟨pins, state, hreadable, hfilled⟩
      simp only [hok]

end ProcessCommandLine

end PulseCounter
