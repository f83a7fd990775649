import PulseCounter.BoardRevision
import PulseCounter.MainProgram

/-!
# The set-up of the library on a host

`wiringPiSetup` looks at the user and at `/proc/cpuinfo`, maps the registers, and ends the process where one
of these fails. With `WIRINGPI_CODES` in the environment a failure of the memory is a result and not the end
of the process, and `wiringPiSetupPhys` passes over the result: the program goes on, perhaps without the
registers of the pins. What it does then is left open.
-/

namespace PulseCounter

namespace WiringPi

/-! ## The model of the board -/

def PI_MODEL_UNKNOWN : Int32 := 0
def PI_MODEL_A : Int32 := 1
def PI_MODEL_B : Int32 := 2
def PI_MODEL_BP : Int32 := 3
def PI_MODEL_CM : Int32 := 4
def PI_MODEL_AP : Int32 := 5
def PI_MODEL_2 : Int32 := 6

/-- The models by the last four characters of the revision. -/
def models : List (List Char × Int32) := [
  ("0002".toList, PI_MODEL_B), ("0003".toList, PI_MODEL_B), ("0004".toList, PI_MODEL_B),
  ("0005".toList, PI_MODEL_B), ("0006".toList, PI_MODEL_B), ("0007".toList, PI_MODEL_A),
  ("0008".toList, PI_MODEL_A), ("0009".toList, PI_MODEL_B), ("000d".toList, PI_MODEL_B),
  ("000e".toList, PI_MODEL_B), ("000f".toList, PI_MODEL_B), ("0010".toList, PI_MODEL_BP),
  ("0011".toList, PI_MODEL_CM), ("0012".toList, PI_MODEL_AP), ("0013".toList, PI_MODEL_BP)]

/-- The model of a board that `piBoardRev` has found; the other results are left out. -/
def piBoardId (board : Board) (buffer : List Char) : Option (List Char) → Except BoardFailure Int32
  | none => .error (.oops "Unable to open /proc/cpuinfo")
  | some text =>
    let line := Fgets.scan 118 (startsWith "Revision") buffer text
    if startsWith "Revision" line then
      if board.piModel2 then
        if ':' ∈ chomp line then .ok PI_MODEL_2 else .error (.oops "Bogus \"Revision\" line")
      else
        let c := (chomp line).dropWhile fun c => ¬c.isDigit
        if c.length < 4 then .error (.oops "Bogus \"Revision\" line")
        else .ok ((models.lookup (c.drop (c.length - 4))).getD PI_MODEL_UNKNOWN)
    else .error (.oops "No \"Revision\" line")

/-! ## The registers -/

/-- The blocks of registers that are mapped. -/
inductive Block where
  | GPIO_BASE
  | GPIO_PWM
  | CLOCK_BASE
  | GPIO_PADS
  deriving DecidableEq, Repr

/-- What the set-up finds. -/
structure Host where
  /-- The effective user is root. -/
  root : Bool
  /-- `WIRINGPI_CODES` is in the environment. -/
  returnCodes : Bool
  /-- The text of `/proc/cpuinfo`, if it can be opened; it is taken to stay the same. -/
  cpuinfo : Option (List Char)
  /-- What the buffers of `piBoardRev` and of `piBoardId` hold before anything is read into them. -/
  revBuffer : List Char
  idBuffer : List Char
  /-- `/dev/mem` can be opened. -/
  devMem : Bool
  mmap : Block → Bool

/-- The first block that cannot be mapped. -/
def Host.mmapFailed (host : Host) : Option Block :=
  [Block.GPIO_BASE, .GPIO_PWM, .CLOCK_BASE, .GPIO_PADS].find? fun block => !host.mmap block

/-- How the set-up ends the process. -/
inductive SetUpFailure where
  | notRoot
  | board (failure : BoardFailure)
  | devMem
  | mmap (block : Block)
  deriving DecidableEq, Repr

def WPI_FATAL : Bool := true

def WPI_ALMOST : Bool := false

/-- A failure ends the process unless it is not fatal and results are asked for. -/
def wiringPiFailure (returnCodes fatal : Bool) (failure : SetUpFailure) : Except SetUpFailure Int32 :=
  if !fatal && returnCodes then .ok (-1) else .error failure

/-! ## The set-up -/

/-- A set-up that has returned; `mapped` tells whether there are registers where the library looks for
those of the pins. -/
structure SetUp where
  result : Int32
  library : WiringPi
  mapped : Bool

open WiringPiMode in
/-- `wiringPiSetup` from the opening of `/dev/mem` on, when the tables have been chosen. -/
def mapRegisters (w : WiringPi) (host : Host) (board : Board) : Except SetUpFailure SetUp :=
  if host.devMem then
    match host.mmapFailed with
    | some block => do
      let result ← wiringPiFailure host.returnCodes WPI_ALMOST (.mmap block)
      return ⟨result, w, block ≠ .GPIO_BASE⟩
    | none => do
      let model ← (piBoardId board host.idBuffer host.cpuinfo).mapError .board
      let wiringPiMode := if model = PI_MODEL_CM then WPI_MODE_GPIO else WPI_MODE_PINS
      return ⟨0, { w with wiringPiMode := wiringPiMode }, true⟩
  else do
    let result ← wiringPiFailure host.returnCodes WPI_ALMOST .devMem
    return ⟨result, w, false⟩

def wiringPiSetup (w : WiringPi) (host : Host) : Except SetUpFailure SetUp := do
  let _ ← (if host.root then pure 0 else wiringPiFailure host.returnCodes WPI_FATAL .notRoot)
  let board ← (piBoardRev host.revBuffer host.cpuinfo).mapError .board
  (w.onBoard board).mapRegisters host board

/-- `wiringPiSetupPhys` with the set-up that it begins with. -/
def wiringPiSetupPhysOn (w : WiringPi) (host : Host) : Except SetUpFailure SetUp := do
  let setUp ← w.wiringPiSetup host
  let (result, library) := setUp.library.wiringPiSetupPhys
  return ⟨result, library, setUp.mapped⟩

/-! ## The program -/

/-- What `main` comes to on a host. -/
inductive Process where
  | program (program : Program)
  | exited (failure : SetUpFailure)
  /-- It goes on without the registers of the pins. -/
  | unmapped

/-- `main` on a host: the set-up of the library is the first that is done for an accepted command line. -/
def mainOn (w : WiringPi) (host : Host) (reading : UInt32)
    (parse_command_line : List String → Except String VariablesMap) (argv : List String) : Process :=
  if (ProcessCommandLine.parse parse_command_line argv {}).1 then
    match w.wiringPiSetupPhysOn host with
    | .error failure => .exited failure
    | .ok setUp =>
      if setUp.mapped then .program (setUp.library.main reading parse_command_line argv) else .unmapped
  else .program (.returned (-1))

end WiringPi

end PulseCounter
