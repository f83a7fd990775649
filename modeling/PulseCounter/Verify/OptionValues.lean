import PulseCounter.Verify.CommandLine

/-!
# The values of the options

A list of pins that is written out with commas reads back as it is, and a field `default` after it
replaces the whole list (`pin_lists_survive`). What else passes for a value is more than the options are
documented to take: `options_in_domain_iff` says which of the accepted command lines keep to that.
-/

namespace PulseCounter

namespace ProcessCommandLine

/-! ## Pin lists written out -/

/-- A pin list as it is written on a command line. -/
def renderPins (pins : List Int32) : List Char :=
  [','].intercalate (pins.map fun pin => Decimal.showInt pin.toInt)

theorem comma_not_mem_showInt (i : Int) : ',' ∉ Decimal.showInt i := by
  intro hmem
  rcases Decimal.mem_showInt hmem with hminus | hdigit
  · exact absurd hminus (by decide)
  · exact absurd hdigit (by decide)

/-- The decimal literal of an `int` has its value. -/
theorem intLiteral_showInt (pin : Int32) : intLiteral (Decimal.showInt pin.toInt) = some pin := by
  have hrange : -2 ^ 31 ≤ pin.toInt ∧ pin.toInt < 2 ^ 31 := ⟨pin.le_toInt, pin.toInt_lt⟩
  unfold intLiteral
  rw [Decimal.readInt_showInt]
  simp only [hrange, and_self, if_true, Int32.ofInt_toInt]

theorem intLiteral_default : intLiteral "default".toList = none := by decide

/-- The fields of a list that is written out. -/
theorem splitOn_renderPins {pins : List Int32} (hne : pins ≠ []) :
    (renderPins pins).splitOn ',' = pins.map fun pin => Decimal.showInt pin.toInt := by
  apply List.splitOn_intercalate
  · intro field hfield
    obtain ⟨pin, -, rfl⟩ := List.mem_map.mp hfield
    exact comma_not_mem_showInt _
  · simpa using hne

/-- The pins that are written out come first. -/
theorem pinsOf_map_showInt (before pins : List Int32) (fields : List (List Char)) :
    pinsOf before ((pins.map fun pin => Decimal.showInt pin.toInt) ++ fields) =
      pinsOf (before ++ pins) fields := by
  induction pins generalizing before with
  | nil => rw [List.map_nil, List.nil_append, List.append_nil]
  | cons pin pins ih =>
    have hne : Decimal.showInt pin.toInt ≠ "default".toList := by
      intro heq
      have hvalue := intLiteral_showInt pin
      rw [heq, intLiteral_default] at hvalue
      cases hvalue
    rw [List.map_cons, List.cons_append, pinsOf, if_neg hne, intLiteral_showInt, Option.bind_some, ih,
      List.append_assoc, List.singleton_append]

/-- The loop over a pin list that stands for pins. -/
theorem readActivePins_of_pinsOf {text : List Char} (hne : text ≠ [])
    {config : PulseCounterConfiguration} {pins : List Int32}
    (h : pinsOf config.activePins (text.splitOn ',') = some pins) :
    (readActivePins (String.ofList text)).run config = .ok () { config with activePins := pins } := by
  have hstring : String.ofList text ≠ "" := by
    intro heq
    have hlist := congrArg String.toList heq
    rw [String.toList_ofList] at hlist
    exact hne hlist
  have hloop := forLines_activePin (text.splitOn ',') config
  rw [h] at hloop
  rw [readActivePins_run hstring, String.toList_ofList]
  exact hloop

theorem renderPins_ne_nil {pins : List Int32} (hne : pins ≠ []) : renderPins pins ≠ [] := by
  intro hnil
  have hfields := splitOn_renderPins hne
  obtain ⟨pin, rest, rfl⟩ := List.exists_cons_of_ne_nil hne
  rw [hnil, List.map_cons, List.splitOn_nil] at hfields
  injection hfields with hempty _
  exact Decimal.showInt_ne_nil _ hempty.symm

/-- **Pin lists survive** being written out and read; with a field `default` after them, they give way
to the default pins, whatever follows. -/
theorem pin_lists_survive (pins : List Int32) (hne : pins ≠ []) (config : PulseCounterConfiguration)
    (hempty : config.activePins = []) :
    (readActivePins (String.ofList (renderPins pins))).run config =
        .ok () { config with activePins := pins } ∧
      ∀ suffix : List Char, suffix = [] ∨ suffix.head? = some ',' →
        (readActivePins (String.ofList (renderPins pins ++ ",default".toList ++ suffix))).run config =
          .ok () { config with activePins := defaultPins } := by
  constructor
  · apply readActivePins_of_pinsOf (renderPins_ne_nil hne)
    have hpins := pinsOf_map_showInt [] pins []
    rw [List.append_nil] at hpins
    rw [hempty, splitOn_renderPins hne, hpins]
    rfl
  · intro suffix hsuffix
    have hcomma : ",default".toList = ',' :: "default".toList := by decide
    have hdefault : ',' ∉ "default".toList := by decide
    -- the field after the pins is exactly `default`
    obtain ⟨fields, hfields⟩ : ∃ fields,
        ("default".toList ++ suffix).splitOn ',' = "default".toList :: fields := by
      rcases hsuffix with rfl | hhead
      · rw [List.append_nil]
        exact ⟨[], List.splitOn_eq_singleton hdefault⟩
      · obtain ⟨rest, rfl⟩ := List.head?_eq_some_iff.mp hhead
        exact ⟨_, List.splitOn_append_cons_self_of_not_mem hdefault rest⟩
    rw [List.append_assoc, hcomma, List.cons_append]
    apply readActivePins_of_pinsOf
    · exact List.append_ne_nil_of_left_ne_nil (renderPins_ne_nil hne) _
    · rw [hempty, List.splitOn_append_cons_self, splitOn_renderPins hne, pinsOf_map_showInt, hfields,
        pinsOf, if_pos rfl]

/-- A list with a repeated and a negative pin, alone and before `default` and a bad field. -/
theorem pin_lists_survive_repeated :
    (readActivePins (String.ofList (renderPins [11, -1, 11]))).run {} =
        .ok () { activePins := [11, -1, 11] } ∧
      (readActivePins (String.ofList
          (renderPins [11, -1, 11] ++ ",default".toList ++ ",x".toList))).run {} =
        .ok () { activePins := defaultPins } := by
  obtain ⟨halone, hbefore⟩ := pin_lists_survive [11, -1, 11] (List.cons_ne_nil _ _) {} rfl
  exact ⟨halone, hbefore ",x".toList (Or.inr (by decide))⟩

/-! ## Values and their domains -/

/-- The values are in the domains that the options are documented with, and the state of the resistors
is the one asked for. -/
structure InDomain (vm : VariablesMap) (config : PulseCounterConfiguration) : Prop where
  activepins : ∃ text, vm.activepins = some text ∧
    (text = "default" ∨ text ≠ "" ∧ ∀ field ∈ text.toList.splitOn ',',
      field ≠ [] ∧ ∃ pin, intLiteral field = some pin)
  pullupstate : ∀ state, vm.pullupstate = some state →
    0 ≤ state ∧ state ≤ 3 ∧ config.pullUpDownState.toInt = state
  debug : ∀ text, vm.debug = some text → ∃ level rest, text.toList = level :: rest ∧
    '0' ≤ level ∧ level ≤ '5' ∧ (rest = [] ∨ rest = ['+'] ∨ rest = ['-'])

/-- None of the values that pass for one is there: an empty pin list or one with `default` among other
fields, a negative state, a level above 5 or one followed by more than a sign. -/
structure NothingPasses (vm : VariablesMap) : Prop where
  activepins : ∀ text, vm.activepins = some text →
    text ≠ "" ∧ ("default".toList ∈ text.toList.splitOn ',' → text = "default")
  pullupstate : ∀ state, vm.pullupstate = some state → 0 ≤ state
  debug : ∀ text, vm.debug = some text → (∀ level, text.toList.head? = some level → level ≤ '5') ∧
    (text.toList.tail = [] ∨ text.toList.tail = ['+'] ∨ text.toList.tail = ['-'])

section Accepted

variable {α : Type} {vm : VariablesMap} {config config' : PulseCounterConfiguration}

theorem lexical_cast_eq_ok {text : List Char} {i : Int32}
    (h : (lexical_cast text).run config = .ok i config') : intLiteral text = some i := by
  unfold lexical_cast at h
  split at h
  · next value hvalue =>
    injection h with h _
    rw [hvalue, h]
  · cases h

/-- A literal of one character is a digit. -/
theorem isDigit_of_intLiteral {c : Char} {i : Int32} (h : intLiteral [c] = some i) :
    c.isDigit = true := by
  have hread : ∃ n, Decimal.readNat [c] = some n := by
    unfold intLiteral Decimal.readInt at h
    split at h
    · next j hj =>
      split at hj
      · next heq =>
        injection heq with _ hnil
        rw [← hnil] at hj
        cases hj
      · next heq =>
        injection heq with _ hnil
        rw [← hnil] at hj
        cases hj
      · obtain ⟨n, hn, -⟩ := Option.map_eq_some_iff.mp hj
        exact ⟨n, hn⟩
    · cases h
  obtain ⟨n, hn⟩ := hread
  unfold Decimal.readNat at hn
  split at hn
  · next hdigits =>
    have hall := hdigits.2
    rw [List.all_cons, List.all_nil, Bool.and_true] at hall
    exact hall
  · cases hn

/-- A level that is accepted starts with a digit. -/
theorem setDebug_eq_ok {a : Unit} (h : (setDebug vm).run config = .ok a config') :
    ∀ text, vm.debug = some text → ∃ level rest, text.toList = level :: rest ∧ level.isDigit = true := by
  intro text htext
  unfold setDebug at h
  rw [htext] at h
  obtain ⟨i, _, hcast, -⟩ := run_bind_eq_ok h
  have hdigit := isDigit_of_intLiteral (lexical_cast_eq_ok hcast)
  cases hlist : text.toList with
  | nil =>
    rw [hlist] at hdigit
    exact absurd hdigit (by decide)
  | cons level rest =>
    rw [hlist] at hdigit
    exact ⟨level, rest, rfl, hdigit⟩

theorem pullUpStateOf_eq_some {state : Int32} {value : PullUpState}
    (h : pullUpStateOf state = some value) : state ≤ 3 ∧ value.toInt = state := by
  have hvalue : value.toInt = state := by
    unfold pullUpStateOf at h
    split_ifs at h with hoff hdown hup hnot
    all_goals
      injection h with h
      subst h
    · exact hoff.symm
    · exact hdown.symm
    · exact hup.symm
    · exact hnot.symm
  refine ⟨?_, hvalue⟩
  rw [← hvalue]
  cases value <;> decide

/-- A state that is accepted and not negative is one of the four, and stored. -/
theorem setPullUpState_eq_ok {state : Int32}
    (h : (setPullUpState state).run config = .ok true config') (hpos : 0 ≤ state) :
    state ≤ 3 ∧ config'.pullUpDownState.toInt = state := by
  unfold setPullUpState at h
  rw [if_pos hpos] at h
  split at h
  · next value hvalue =>
    injection h with _ hconfig
    rw [← hconfig]
    exact pullUpStateOf_eq_some hvalue
  · injection h with hfalse _
    cases hfalse

/-- A pin list that is accepted has no field but `default` that is not a literal. -/
theorem literals_of_readActivePins {text : String} {a : Unit}
    (h : (readActivePins text).run config = .ok a config') (hne : text ≠ "")
    (hdefault : "default".toList ∉ text.toList.splitOn ',') :
    ∀ field ∈ text.toList.splitOn ',', field ≠ [] ∧ ∃ pin, intLiteral field = some pin := by
  intro field hfield
  rcases readActivePins_eq_ok h with ⟨hempty, -⟩ | ⟨-, hread⟩
  · exact absurd hempty hne
  · obtain ⟨values, -, hliterals⟩ := pinsOf_of_literals hread hdefault
    have hall := (forall₂_literals (P := fun _ => True) hliterals).mp fun _ _ => trivial
    obtain ⟨pin, hpin, -⟩ := hall field hfield
    refine ⟨?_, pin, hpin⟩
    rintro rfl
    cases hpin

end Accepted

/-- Values that are in their domains are none of those that pass for one. -/
theorem InDomain.nothingPasses {vm : VariablesMap} {config : PulseCounterConfiguration}
    (h : InDomain vm config) : NothingPasses vm := by
  obtain ⟨⟨text, htext, hlist⟩, hpullup, hlevel⟩ := h
  refine ⟨fun text' htext' => ?_, fun state hs => (hpullup state hs).1, fun level hl => ?_⟩
  · obtain rfl : text = text' := Option.some.inj (htext.symm.trans htext')
    rcases hlist with rfl | ⟨hne, hfields⟩
    · exact ⟨by decide, fun _ => rfl⟩
    · refine ⟨hne, fun hmem => ?_⟩
      obtain ⟨-, pin, hpin⟩ := hfields _ hmem
      rw [intLiteral_default] at hpin
      cases hpin
  · obtain ⟨c, rest, hchars, -, hle, hrest⟩ := hlevel level hl
    rw [hchars, List.head?_cons, List.tail_cons]
    refine ⟨fun c' hc' => ?_, hrest⟩
    injection hc' with hc'
    rw [← hc']
    exact hle

/-- **Values out of their domains are rejected**, but for those that pass: an accepted command line has
all values in their domains, and the state of the resistors it asks for, exactly when none of these is
among them. -/
theorem options_in_domain_iff (parse_command_line : List String → Except String VariablesMap)
    (argv : List String) (config config' : PulseCounterConfiguration)
    (h : parse parse_command_line argv config = (true, config')) :
    ∃ vm, parse_command_line argv = .ok vm ∧ (InDomain vm config' ↔ NothingPasses vm) := by
  obtain ⟨vm, c₁, c₂, c₃, c₄, hvm, -, hdebug, hnotify, hpins, hstate⟩ := steps_of_parse h
  obtain ⟨text, htext⟩ := notify_eq_ok hnotify
  rw [htext] at hpins
  refine ⟨vm, hvm, InDomain.nothingPasses, ?_⟩
  rintro ⟨hlist, hpullup, hlevel⟩
  refine ⟨⟨text, htext, ?_⟩, fun state hs => ?_, fun level hl => ?_⟩
  · obtain ⟨hne, hdefault⟩ := hlist text htext
    by_cases hmem : "default".toList ∈ text.toList.splitOn ','
    · exact Or.inl (hdefault hmem)
    · exact Or.inr ⟨hne, literals_of_readActivePins hpins hne hmem⟩
  · rw [hs] at hstate
    exact ⟨hpullup state hs, setPullUpState_eq_ok hstate (hpullup state hs)⟩
  · obtain ⟨c, rest, hchars, hdigit⟩ := setDebug_eq_ok hdebug level hl
    obtain ⟨hle, hrest⟩ := hlevel level hl
    rw [hchars] at hle hrest
    refine ⟨c, rest, hchars, ?_, hle c rfl, hrest⟩
    rw [Char.le_def, UInt32.le_iff_toNat_le]
    exact (Char.isDigit_iff_toNat.mp hdigit).1

/-- What the options library makes of a pin list and a state for the resistors. -/
def bindPullUpState : List String → Except String VariablesMap
  | [_, "--activepins", pins, "--pullupstate", state] =>
    match intLiteral state.toList with
    | some state => .ok { activepins := some pins, pullupstate := some state }
    | none => .error "the argument for option '--pullupstate' is invalid"
  | _ => .error "unrecognised option"

theorem options_in_domain_iff_up :
    ∃ vm, bindPullUpState ["PulseCounter", "--activepins", "11,12", "--pullupstate", "2"] = .ok vm ∧
      (InDomain vm { activePins := [11, 12], pullUpDownState := .PullUpState_Up } ↔
        NothingPasses vm) :=
  options_in_domain_iff _ _ {} _ (by decide +kernel)

/-- A negative state is accepted and ignored. -/
theorem option_passes_out_of_domain :
    ¬∀ (parse_command_line : List String → Except String VariablesMap) (argv : List String)
      (config' : PulseCounterConfiguration) (vm : VariablesMap),
      parse parse_command_line argv {} = (true, config') → parse_command_line argv = .ok vm →
      InDomain vm config' := by
  intro h
  have hdomain := h bindPullUpState ["PulseCounter", "--activepins", "11", "--pullupstate", "-5"]
    { activePins := [11] } { activepins := some "11", pullupstate := some (-5) }
    (by decide +kernel) (by decide +kernel)
  exact absurd (hdomain.pullupstate (-5) rfl).1 (by decide)

end ProcessCommandLine

end PulseCounter
