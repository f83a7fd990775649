import PulseCounter.PulseCounterConfiguration
import PulseCounter.Lib.StringStream
import PulseCounter.Lib.Decimal

/-!
# The command line

`parse` fills in the configuration from the options and tells whether the program should run. The
options library is not part of the program: `parse_command_line` stands for its parser together with
`store`, which yields the values of the options or fails. What `notify` does with the values is written
out here. The levels of the log and the texts of the messages are left out.
-/

namespace PulseCounter

/-- What makes `parse` give up a command line. -/
inductive Rejection where
  | program_options (what : String)
  | required_option (name : String)
  | bad_lexical_cast
  deriving DecidableEq, Repr

/-- The values of the options that are present. -/
structure VariablesMap where
  help : Bool := false
  activepins : Option String := none
  cpuRestPeriod : Option Int32 := none
  debug : Option String := none
  duration : Option UInt32 := none
  pullupstate : Option Int32 := none
  statusfname : Option String := none
  statusonly : Bool := false
  deriving DecidableEq, Repr

namespace ProcessCommandLine

/-- A step of `parse`: it may throw, and changes the configuration either way. -/
abbrev Parse := EStateM Rejection PulseCounterConfiguration

/-- The value of a decimal literal that fits an `int`. -/
def intLiteral (text : List Char) : Option Int32 :=
  match Decimal.readInt text with
  | some i => if -2 ^ 31 ≤ i ∧ i < 2 ^ 31 then some (Int32.ofInt i) else none
  | none => none

def lexical_cast (text : List Char) : Parse Int32 :=
  match intLiteral text with
  | some i => pure i
  | none => throw .bad_lexical_cast

def defaultPins : List Int32 := [11, 12, 13, 15, 16, 18, 22, 36, 38, 19, 21, 23]

def configureChannels (config : PulseCounterConfiguration) : PulseCounterConfiguration :=
  if config.activePins.length = 0 then { config with activePins := defaultPins } else config

/-- The loop over the fields of the pin list on one of them; it breaks off at `default`. -/
def activePin (substr : List Char) : Parse Bool := do
  if substr = "default".toList then
    modify fun config => { config with activePins := [] }
    modify configureChannels
    return false
  else
    let pin ← lexical_cast substr
    modify fun config => { config with activePins := config.activePins ++ [pin] }
    return true

def setStatusOnly (vm : VariablesMap) : Parse Unit :=
  if vm.statusonly then modify fun config => { config with statusonly := true } else pure ()

/-- The level is the first character, which is the null character in an empty text. -/
def setDebug (vm : VariablesMap) : Parse Unit :=
  match vm.debug with
  | some debugLevel => do
    let _level ← lexical_cast [debugLevel.toList.headD '\x00']
    modify fun config => { config with showDebug := true }
  | none => pure ()

/-- The values that are bound to fields of the configuration, once the required one is there. -/
def notify (vm : VariablesMap) : Parse Unit :=
  match vm.activepins with
  | none => throw (.required_option "activepins")
  | some _ => modify fun config => { config with
      cpuRestPeriod := vm.cpuRestPeriod.getD config.cpuRestPeriod
      duration := vm.duration.getD config.duration
      statusfname := vm.statusfname.getD config.statusfname }

def readActivePins (activePins : String) : Parse Unit :=
  if activePins ≠ "" then
    StringStream.whileGood ',' activePin (.ofText activePins.toList)
  else pure ()

def pullUpStateOf (pullupstate : Int32) : Option PullUpState :=
  if pullupstate = 0 then some .PullUpState_Off
  else if pullupstate = 1 then some .PullUpState_Down
  else if pullupstate = 2 then some .PullUpState_Up
  else if pullupstate = 3 then some .PullUpState_NotInitialised
  else none

/-- The switch on the state; a negative one is not looked at. -/
def setPullUpState (pullupstate : Int32) : Parse Bool :=
  if pullupstate ≥ 0 then
    match pullUpStateOf pullupstate with
    | some state => do
      modify fun config => { config with pullUpDownState := state }
      return true
    | none => return false
  else return true

/-- `parse` inside its `try`. -/
def parseOptions (vm : VariablesMap) : Parse Bool :=
  if vm.help then pure false
  else do
    setStatusOnly vm
    setDebug vm
    notify vm
    readActivePins (vm.activepins.getD "")
    setPullUpState (vm.pullupstate.getD (-1))

def parse (parse_command_line : List String → Except String VariablesMap) (argv : List String)
    (readAllPollConfig : PulseCounterConfiguration) : Bool × PulseCounterConfiguration :=
  match parse_command_line argv with
  | .error _ => (false, readAllPollConfig)
  | .ok vm =>
    match (parseOptions vm).run readAllPollConfig with
    | .ok accepted config => (accepted, config)
    | .error _ config => (false, config)

end ProcessCommandLine

end PulseCounter
