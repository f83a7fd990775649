import PulseCounter.ProcessCommandLine
import PulseCounter.Verify.System

/-!
# Command lines and runs

An accepted command line leaves the configuration with the pins its pin list stands for
(`activePins_of_parse`). The parser looks at nothing but the form of a pin list, so whether a run on
the configuration is safe is a matter of the list: it must name pins that carry a GPIO, and it must not
be empty (`accepted_is_safe_iff`).
-/

namespace PulseCounter

namespace ProcessCommandLine

/-! ## Pin lists -/

/-- The pins that the fields of a list stand for, after the pins `pins`. -/
def pinsOf (pins : List Int32) : List (List Char) → Option (List Int32)
  | [] => some pins
  | field :: fields =>
    if field = "default".toList then some defaultPins
    else (intLiteral field).bind fun pin => pinsOf (pins ++ [pin]) fields

/-- The loop over the fields ends with the pins they stand for, or throws when there are none. -/
theorem forLines_activePin (fields : List (List Char)) (config : PulseCounterConfiguration) :
    match pinsOf config.activePins fields with
    | some pins => (StringStream.forLines activePin fields).run config =
        .ok () { config with activePins := pins }
    | none => ∃ e config', (StringStream.forLines activePin fields).run config = .error e config' := by
  induction fields generalizing config with
  | nil => rfl
  | cons field fields ih =>
    unfold pinsOf
    by_cases hdefault : field = "default".toList
    · rw [if_pos hdefault]
      unfold StringStream.forLines activePin
      rw [if_pos hdefault]
      rfl
    · rw [if_neg hdefault]
      unfold StringStream.forLines activePin lexical_cast
      rw [if_neg hdefault]
      cases hpin : intLiteral field with
      | none => exact ⟨_, _, rfl⟩
      | some pin =>
        have hrest := ih { config with activePins := config.activePins ++ [pin] }
        simp only [Option.bind_some]
        exact hrest

/-! ## Accepted command lines -/

section Accepted

variable {α β : Type} {config config' : PulseCounterConfiguration}

theorem run_bind_eq_ok {x : Parse α} {f : α → Parse β} {b : β}
    (h : (x >>= f).run config = .ok b config') :
    ∃ a c, x.run config = .ok a c ∧ (f a).run c = .ok b config' := by
  change EStateM.bind x f config = .ok b config' at h
  unfold EStateM.bind at h
  split at h
  · next a c hx => exact ⟨a, c, hx, h⟩
  · cases h

/-- A step that does not touch the pins. -/
def KeepsPins (x : Parse α) : Prop :=
  ∀ config a config', x.run config = .ok a config' → config'.activePins = config.activePins

theorem keepsPins_modify {f : PulseCounterConfiguration → PulseCounterConfiguration}
    (h : ∀ config, (f config).activePins = config.activePins) : KeepsPins (modify f : Parse Unit) := by
  intro config a config' hrun
  injection hrun with _ hconfig
  rw [← hconfig]
  exact h config

theorem keepsPins_pure (a : α) : KeepsPins (pure a : Parse α) := by
  intro config b config' hrun
  injection hrun with _ hconfig
  rw [hconfig]

theorem keepsPins_throw (e : Rejection) : KeepsPins (throw e : Parse α) := by
  intro config a config' hrun
  cases hrun

theorem KeepsPins.bind {x : Parse α} {f : α → Parse β} (hx : KeepsPins x)
    (hf : ∀ a, KeepsPins (f a)) : KeepsPins (x >>= f) := by
  intro config b config' hrun
  obtain ⟨a, c, hfirst, hthen⟩ := run_bind_eq_ok hrun
  rw [hf a c b config' hthen, hx config a c hfirst]

theorem keepsPins_setStatusOnly (vm : VariablesMap) : KeepsPins (setStatusOnly vm) := by
  unfold setStatusOnly
  split
  · exact keepsPins_modify fun _ => rfl
  · exact keepsPins_pure ()

theorem keepsPins_lexical_cast (text : List Char) : KeepsPins (lexical_cast text) := by
  unfold lexical_cast
  split
  · exact keepsPins_pure _
  · exact keepsPins_throw _

theorem keepsPins_setDebug (vm : VariablesMap) : KeepsPins (setDebug vm) := by
  unfold setDebug
  split
  · exact (keepsPins_lexical_cast _).bind fun _ => keepsPins_modify fun _ => rfl
  · exact keepsPins_pure ()

theorem keepsPins_notify (vm : VariablesMap) : KeepsPins (notify vm) := by
  unfold notify
  split
  · exact keepsPins_throw _
  · exact keepsPins_modify fun _ => rfl

theorem keepsPins_setPullUpState (pullupstate : Int32) : KeepsPins (setPullUpState pullupstate) := by
  unfold setPullUpState
  split
  · split
    · refine KeepsPins.bind ?_ fun _ => keepsPins_pure true
      exact keepsPins_modify fun _ => rfl
    · exact keepsPins_pure false
  · exact keepsPins_pure true

/-- A pin list that is not empty is read field by field. -/
theorem readActivePins_run {activePins : String} (h : activePins ≠ "")
    (config : PulseCounterConfiguration) : (readActivePins activePins).run config =
      (StringStream.forLines activePin (activePins.toList.splitOn ',')).run config := by
  unfold readActivePins
  rw [if_pos h, StringStream.whileGood_ofText]

theorem readActivePins_eq_ok {activePins : String} {a : Unit}
    (h : (readActivePins activePins).run config = .ok a config') :
    activePins = "" ∧ config'.activePins = config.activePins ∨
      activePins ≠ "" ∧
        pinsOf config.activePins (activePins.toList.splitOn ',') = some config'.activePins := by
  by_cases hempty : activePins = ""
  · refine Or.inl ⟨hempty, ?_⟩
    unfold readActivePins at h
    rw [if_neg (not_not.mpr hempty)] at h
    exact keepsPins_pure () _ _ _ h
  · refine Or.inr ⟨hempty, ?_⟩
    rw [readActivePins_run hempty] at h
    have hloop := forLines_activePin (activePins.toList.splitOn ',') config
    cases hpins : pinsOf config.activePins (activePins.toList.splitOn ',') with
    | none =>
      rw [hpins] at hloop
      obtain ⟨e, c, hthrow⟩ := hloop
      rw [h] at hthrow
      cases hthrow
    | some pins =>
      rw [hpins] at hloop
      simp only at hloop
      rw [h] at hloop
      injection hloop with _ hconfig
      rw [hconfig]

/-- The steps of a `parse` that accepts the command line. -/
theorem steps_of_parse {parse_command_line : List String → Except String VariablesMap}
    {argv : List String} (h : parse parse_command_line argv config = (true, config')) :
    ∃ vm c₁ c₂ c₃ c₄, parse_command_line argv = .ok vm ∧
      (setStatusOnly vm).run config = .ok () c₁ ∧ (setDebug vm).run c₁ = .ok () c₂ ∧
      (notify vm).run c₂ = .ok () c₃ ∧
      (readActivePins (vm.activepins.getD "")).run c₃ = .ok () c₄ ∧
      (setPullUpState (vm.pullupstate.getD (-1))).run c₄ = .ok true config' := by
  unfold parse at h
  split at h
  · cases h
  · next vm hvm =>
    split at h
    · next accepted c hrun =>
      injection h with haccepted hc
      subst haccepted hc
      unfold parseOptions at hrun
      split at hrun
      · injection hrun with hfalse _
        cases hfalse
      · obtain ⟨_, c₁, hstatus, hrun⟩ := run_bind_eq_ok hrun
        obtain ⟨_, c₂, hdebug, hrun⟩ := run_bind_eq_ok hrun
        obtain ⟨_, c₃, hnotify, hrun⟩ := run_bind_eq_ok hrun
        obtain ⟨_, c₄, hpins, hstate⟩ := run_bind_eq_ok hrun
        exact ⟨vm, c₁, c₂, c₃, c₄, hvm, hstatus, hdebug, hnotify, hpins, hstate⟩
    · cases h

/-- The pin list is a required option. -/
theorem notify_eq_ok {vm : VariablesMap} {a : Unit} (h : (notify vm).run config = .ok a config') :
    ∃ text, vm.activepins = some text := by
  cases htext : vm.activepins with
  | none =>
    unfold notify at h
    rw [htext] at h
    cases h
  | some text => exact ⟨text, rfl⟩

/-- **An accepted command line** has a pin list, and its pins are those the list stands for; an empty
list leaves the pins as they were. -/
theorem activePins_of_parse {parse_command_line : List String → Except String VariablesMap}
    {argv : List String} (h : parse parse_command_line argv config = (true, config')) :
    ∃ vm text, parse_command_line argv = .ok vm ∧ vm.activepins = some text ∧
      (text = "" ∧ config'.activePins = config.activePins ∨
        text ≠ "" ∧
          pinsOf config.activePins (text.toList.splitOn ',') = some config'.activePins) := by
  obtain ⟨vm, c₁, c₂, c₃, c₄, hvm, hstatus, hdebug, hnotify, hpins, hstate⟩ := steps_of_parse h
  obtain ⟨text, htext⟩ := notify_eq_ok hnotify
  have hbefore : c₃.activePins = config.activePins := by
    rw [keepsPins_notify vm _ _ _ hnotify, keepsPins_setDebug vm _ _ _ hdebug,
      keepsPins_setStatusOnly vm _ _ _ hstatus]
  have hread := readActivePins_eq_ok hpins
  rw [hbefore, ← keepsPins_setPullUpState _ _ _ _ hstate, htext] at hread
  exact ⟨vm, text, hvm, htext, hread⟩

end Accepted

/-! ## Safe configurations -/

/-- A position that has an initialiser in the table. -/
def Described (pin : Int32) : Prop :=
  0 ≤ pin ∧ pin < Int32.ofNat RPiInterfaceEmulated.describedPins.length

instance (pin : Int32) : Decidable (Described pin) := inferInstanceAs (Decidable (_ ∧ _))

/-- There are pins, and each is a described position with a GPIO number that is a bit of the register
word. -/
def SafePins (config : PulseCounterConfiguration) : Prop :=
  config.activePins ≠ [] ∧ ∀ pin ∈ config.activePins,
    Described pin ∧ GpioBit (RPiInterfaceEmulated.physPinToGpio pin)

open PulseCounterMain

/-- On a board whose set-up succeeds and with a fresh channel table, a run on the configuration starts,
so that the decoder has channels and the mask is defined; the shift for each channel is by a bit
position and sets the bit that is tested for the channel; and no step of the run faults, whatever is
reported being of a vector that is not empty. -/
def RunsSafely (config : PulseCounterConfiguration) : Prop :=
  ∀ (p : Platform) (rpi : RPiInterface),
    rpi.physPinToGpio = RPiInterfaceEmulated.physPinToGpio → ¬rpi.wiringPiSetupPhys < 0 →
    (∃ s₀, start rpi config (.new rpi) = .ok (some s₀) ∧
      ∀ s, (machine p rpi config).Reachable s₀ s → (machine p rpi config).Sound s ∧
        ∀ e ∈ s.emitted, e.report.result ≠ []) ∧
    ∀ channel g, ((ConfiguredChannels.new rpi).addChannels config.activePins).getChannelPin channel =
        .ok g → GpioBit g ∧ ∃ one, shiftOne g = .ok one ∧
      ∀ word, getPinValue word g.toUInt32 = 1 ↔ word &&& one ≠ 0

theorem runsSafely_of_safePins {config : PulseCounterConfiguration} (h : SafePins config) :
    RunsSafely config := by
  obtain ⟨hne, hpins⟩ := h
  intro p rpi hphys hsetup
  have hempty := ConfiguredChannels.totalChannels_new rpi
  obtain ⟨hn, hrange⟩ := ConfiguredChannels.inRange_addChannels hempty hne fun pin hpin => by
    change GpioBit (rpi.physPinToGpio pin)
    rw [hphys]
    exact (hpins pin hpin).2
  obtain ⟨s₀, hstart, hinv, -⟩ := start_eq_ok p hsetup hn hrange
  refine ⟨⟨s₀, hstart, fun s hs => ?_⟩, fun channel g hg => ?_⟩
  · obtain ⟨hinv, hsound⟩ := hinv.reachable hn hrange hs
    exact ⟨hsound, fun e he => (hinv.emitted e he).result_ne_nil hn⟩
  · have hbit := hrange g (ConfiguredChannels.mem_gpios_of_getChannelPin hg)
    refine ⟨hbit, _, hbit.shiftOne_eq, fun word => ?_⟩
    rw [getPinValue, hbit.and_31]
    split
    · next hset => exact ⟨fun _ => hset, fun _ => rfl⟩
    · next hclear => exact ⟨fun hone => absurd hone (by decide), fun hset => absurd hset hclear⟩

/-! ## Which command lines are safe -/

theorem safe_defaultPins : ∀ pin ∈ defaultPins,
    Described pin ∧ GpioBit (RPiInterfaceEmulated.physPinToGpio pin) :=
  List.forall_iff_forall_mem.mp (by decide +kernel)

/-- The table has no GPIO number that is not a bit of the register word. -/
theorem physPinToGpio_le (pin : Int32) : RPiInterfaceEmulated.physPinToGpio pin ≤ 31 := by
  have htable : RPiInterfaceEmulated.physToGpioR2.all (fun g => decide (g ≤ 31)) = true := by
    decide +kernel
  exact of_decide_eq_true (List.all_eq_true.mp htable _ (List.getElem_mem _))

/-- A list with a field `default` that stands for pins stands for the default pins. -/
theorem pinsOf_of_default {fields : List (List Char)} {before pins : List Int32}
    (h : pinsOf before fields = some pins) (hdefault : "default".toList ∈ fields) :
    pins = defaultPins := by
  induction fields generalizing before with
  | nil => cases hdefault
  | cons field fields ih =>
    unfold pinsOf at h
    by_cases hfield : field = "default".toList
    · rw [if_pos hfield] at h
      injection h with h
      exact h.symm
    · rw [if_neg hfield, Option.bind_eq_some_iff] at h
      obtain ⟨pin, -, hrest⟩ := h
      rcases List.mem_cons.mp hdefault with heq | hmem
      · exact absurd heq.symm hfield
      · exact ih hrest hmem

/-- A list without a field `default` stands for the values of its fields. -/
theorem pinsOf_of_literals {fields : List (List Char)} {before pins : List Int32}
    (h : pinsOf before fields = some pins) (hdefault : "default".toList ∉ fields) :
    ∃ values, pins = before ++ values ∧
      List.Forall₂ (fun field pin => intLiteral field = some pin) fields values := by
  induction fields generalizing before with
  | nil =>
    injection h with h
    exact ⟨[], by rw [List.append_nil, h], List.Forall₂.nil⟩
  | cons field fields ih =>
    rw [List.mem_cons, not_or] at hdefault
    unfold pinsOf at h
    rw [if_neg (Ne.symm hdefault.1), Option.bind_eq_some_iff] at h
    obtain ⟨pin, hpin, hrest⟩ := h
    obtain ⟨values, hpins, hvalues⟩ := ih hrest hdefault.2
    exact ⟨pin :: values, by rw [hpins, List.append_assoc, List.singleton_append],
      List.Forall₂.cons hpin hvalues⟩

/-- The pin list names pins that carry a GPIO, or asks for the default pins. -/
def SafeList (activePins : String) : Prop :=
  activePins ≠ "" ∧ ("default".toList ∈ activePins.toList.splitOn ',' ∨
    ∀ field ∈ activePins.toList.splitOn ',', ∃ pin, intLiteral field = some pin ∧ Described pin ∧
      RPiInterfaceEmulated.physPinToGpio pin ≥ 0)

/-- The fields of a list name good pins exactly when the pins it stands for are good. -/
theorem forall₂_literals {fields : List (List Char)} {values : List Int32} {P : Int32 → Prop}
    (h : List.Forall₂ (fun field pin => intLiteral field = some pin) fields values) :
    (∀ pin ∈ values, P pin) ↔ ∀ field ∈ fields, ∃ pin, intLiteral field = some pin ∧ P pin := by
  induction h with
  | nil => simp
  | @cons field pin fields values hpin _ ih =>
    rw [List.forall_mem_cons, List.forall_mem_cons, ih, hpin]
    simp

theorem safePins_iff_safeList {text : String} {config : PulseCounterConfiguration}
    (h : text = "" ∧ config.activePins = [] ∨
      text ≠ "" ∧ pinsOf [] (text.toList.splitOn ',') = some config.activePins) :
    SafePins config ↔ SafeList text := by
  unfold SafePins SafeList
  rcases h with ⟨hempty, hnil⟩ | ⟨hne, hpins⟩
  · constructor
    · rintro ⟨hsome, -⟩
      exact absurd hnil hsome
    · rintro ⟨hsome, -⟩
      exact absurd hempty hsome
  · by_cases hdefault : "default".toList ∈ text.toList.splitOn ','
    · rw [pinsOf_of_default hpins hdefault]
      exact ⟨fun _ => ⟨hne, Or.inl hdefault⟩, fun _ => ⟨by decide, safe_defaultPins⟩⟩
    · obtain ⟨values, hvalues, hliterals⟩ := pinsOf_of_literals hpins hdefault
      rw [List.nil_append] at hvalues
      have hsome : config.activePins ≠ [] := by
        intro hnil
        rw [hvalues] at hnil
        rw [hnil, List.forall₂_nil_right_iff] at hliterals
        exact List.splitOn_ne_nil _ _ hliterals
      have hbits : ∀ pin, (Described pin ∧ GpioBit (RPiInterfaceEmulated.physPinToGpio pin)) ↔
          Described pin ∧ RPiInterfaceEmulated.physPinToGpio pin ≥ 0 := by
        intro pin
        exact and_congr_right fun _ => ⟨fun hbit => hbit.1, fun hpos => ⟨hpos, physPinToGpio_le pin⟩⟩
      rw [hvalues] at hsome ⊢
      simp only [hbits, forall₂_literals hliterals, hsome, hne, hdefault, ne_eq, not_false_eq_true,
        true_and, false_or]

/-- **An accepted command line is safe to run** exactly when its pin list is not empty and either asks
for the default pins or names only described positions that carry a GPIO. -/
theorem accepted_is_safe_iff (parse_command_line : List String → Except String VariablesMap)
    (argv : List String) (config : PulseCounterConfiguration)
    (h : parse parse_command_line argv {} = (true, config)) :
    ∃ vm text, parse_command_line argv = .ok vm ∧ vm.activepins = some text ∧
      (SafePins config ∧ RunsSafely config ↔ SafeList text) := by
  obtain ⟨vm, text, hvm, htext, hpins⟩ := activePins_of_parse h
  refine ⟨vm, text, hvm, htext, ?_⟩
  rw [← safePins_iff_safeList hpins]
  exact ⟨fun hsafe => hsafe.1, fun hsafe => ⟨hsafe, runsSafely_of_safePins hsafe⟩⟩

/-- What the options library makes of a command line that has a pin list and nothing else. -/
def bindActivePins : List String → Except String VariablesMap
  | [_, "--activepins", value] => .ok { activepins := some value }
  | _ => .error "unrecognised option"

theorem accepted_is_safe_iff_two :
    bindActivePins ["PulseCounter", "--activepins", "11,12"] = .ok { activepins := some "11,12" } ∧
      SafeList "11,12" ∧ SafePins { activePins := [11, 12] } ∧ RunsSafely { activePins := [11, 12] } := by
  obtain ⟨vm, text, hvm, htext, hsafe⟩ := accepted_is_safe_iff bindActivePins
    ["PulseCounter", "--activepins", "11,12"] { activePins := [11, 12] } (by decide +kernel)
  injection hvm with hvm
  subst hvm
  injection htext with htext
  subst htext
  have hfields : "11,12".toList.splitOn ',' = ["11".toList, "12".toList] := by decide +kernel
  have hlist : SafeList "11,12" := by
    refine ⟨by decide, .inr ?_⟩
    rw [hfields, List.forall_mem_cons, List.forall_mem_singleton]
    exact ⟨⟨11, by decide +kernel⟩, ⟨12, by decide +kernel⟩⟩
  exact ⟨rfl, hlist, hsafe.mpr hlist⟩

/-- Pin 1 is a supply pin, and it is accepted. -/
theorem accepted_is_unsafe :
    ¬∀ (parse_command_line : List String → Except String VariablesMap) (argv : List String)
      (config : PulseCounterConfiguration), parse parse_command_line argv {} = (true, config) →
        SafePins config ∧ RunsSafely config := by
  intro h
  obtain ⟨⟨-, hpins⟩, -⟩ := h bindActivePins ["PulseCounter", "--activepins", "1"]
    { activePins := [1] } (by decide +kernel)
  have hbit := (hpins 1 List.mem_cons_self).2
  exact absurd hbit (by decide)

end ProcessCommandLine

end PulseCounter
