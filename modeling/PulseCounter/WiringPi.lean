import PulseCounter.RPiInterface

/-!
# The vendored wiringPi library

What the program's hardware interface rests on: the table that maps physical pins to GPIO numbers on
either revision of the board, `digitalReadAll`, which was added to the library for this program,
`digitalRead`, which reads a single pin in whatever mode the library was set up for, and `pullUpDnControl`,
which sets the resistor of a pin by writes to the registers.

The state is what these functions look at. The mapped registers are words at offsets from the base of
the GPIO block; the value files of the `sys` mode and the nodes of extension boards are given by what
they yield when they are read.
-/

namespace PulseCounter

inductive WiringPiMode where
  | WPI_MODE_PINS
  | WPI_MODE_GPIO
  | WPI_MODE_GPIO_SYS
  | WPI_MODE_PHYS
  | WPI_MODE_PIFACE
  | WPI_MODE_UNINITIALISED
  deriving DecidableEq, Repr

/-- An extension board: the pins it covers and what they read. -/
structure WiringPiNode where
  pinBase : Int32
  pinMax : Int32
  digitalRead : Int32 → Int32

structure WiringPi where
  /-- The result of `piBoardRev`. -/
  boardRev : Int32
  wiringPiMode : WiringPiMode
  gpio : Nat → UInt32
  /-- What a read of the value file of a GPIO yields, if the file is open. -/
  sysFds : Vector (Option Char) 64
  wiringPiNodes : List WiringPiNode

namespace WiringPi

def PI_GPIO_MASK : UInt32 := 0xFFFFFFC0

def LOW : Int32 := 0

def HIGH : Int32 := 1

/-! ## The tables -/

def pinToGpioR1 : Vector Int32 64 := #v[
  17, 18, 21, 22, 23, 24, 25, 4,
  0, 1,
  8, 7,
  10, 9, 11,
  14, 15,
  -- padding
  -1, -1, -1, -1, -1, -1, -1, -1, -1, -1, -1, -1, -1, -1, -1,
  -1, -1, -1, -1, -1, -1, -1, -1, -1, -1, -1, -1, -1, -1, -1, -1,
  -1, -1, -1, -1, -1, -1, -1, -1, -1, -1, -1, -1, -1, -1, -1, -1]

def pinToGpioR2 : Vector Int32 64 := #v[
  17, 18, 27, 22, 23, 24, 25, 4,
  2, 3,
  8, 7,
  10, 9, 11,
  14, 15,
  28, 29, 30, 31,
  5, 6, 13, 19, 26,
  12, 16, 20, 21,
  0, 1,
  -- padding
  -1, -1, -1, -1, -1, -1, -1, -1, -1, -1, -1, -1, -1, -1, -1, -1,
  -1, -1, -1, -1, -1, -1, -1, -1, -1, -1, -1, -1, -1, -1, -1, -1]

def physToGpioR1 : Vector Int32 64 := #v[
  -1,      -- 0
  -1, -1,  -- 1, 2
  0, -1,
  1, -1,
  4, 14,
  -1, 15,
  17, 18,
  21, -1,
  22, 23,
  -1, 24,
  10, -1,
  9, 25,
  11, 8,
  -1, 7,   -- 25, 26
  -1, -1, -1, -1, -1,
  -1, -1, -1, -1, -1, -1, -1, -1, -1, -1, -1, -1, -1, -1, -1, -1,
  -1, -1, -1, -1, -1, -1, -1, -1, -1, -1, -1, -1, -1, -1, -1, -1]

/-- Position 63 has no initialiser either, and is zero. -/
def physToGpioR2 : Vector Int32 64 := #v[
  -1,      -- 0
  -1, -1,  -- 1, 2
  2, -1,
  3, -1,
  4, 14,
  -1, 15,
  17, 18,
  27, -1,
  22, 23,
  -1, 24,
  10, -1,
  9, 25,
  11, 8,
  -1, 7,   -- 25, 26
  -- B+
  0, 1,
  5, -1,
  6, 12,
  13, -1,
  19, 16,
  26, 20,
  -1, 21,
  -- the P5 connector on the Rev 2 boards
  -1, -1,
  -1, -1,
  -1, -1,
  -1, -1,
  -1, -1,
  28, 29,
  30, 31,
  -1, -1,
  -1, -1,
  -1, -1,
  -1, -1,
  0]

/-- The offset of the input level register of each GPIO. -/
def gpioToGPLEV : Vector Nat 64 := Vector.replicate 32 13 ++ Vector.replicate 32 14

/-- An element of an array; reading outside it is undefined in the source. A negative index lies
beyond the end as an unsigned number. -/
def element {α : Type} {n : Nat} (table : Vector α n) (i : Int32) : Except Fault α :=
  match table[i.toUInt32.toNat]? with
  | some x => .ok x
  | none => .error (.subscript i.toUInt32.toNat)

variable (w : WiringPi)

/-- The tables that `wiringPiSetup` chooses by the revision of the board. -/
def pinToGpio : Vector Int32 64 := if w.boardRev = 1 then pinToGpioR1 else pinToGpioR2

def physToGpio : Vector Int32 64 := if w.boardRev = 1 then physToGpioR1 else physToGpioR2

/-- The result, and the library after the call, once `wiringPiSetup` has returned. -/
def wiringPiSetupPhys : Int32 × WiringPi := (0, { w with wiringPiMode := .WPI_MODE_PHYS })

theorem and_63_lt (physPin : Int32) : (physPin &&& 63).toNatClampNeg < 64 :=
  RPiInterfaceEmulated.maskedPin_lt physPin

def physPinToGpio (physPin : Int32) : Int32 :=
  have := and_63_lt physPin
  w.physToGpio[(physPin &&& 63).toNatClampNeg]

/-! ## Reading pins -/

/-- The level of a GPIO in its input level register. -/
def readLevel (pin : Int32) : Except Fault Int32 := do
  let offset ← element gpioToGPLEV pin
  return if w.gpio offset &&& (1 <<< (pin.toUInt32 &&& 31)) ≠ 0 then HIGH else LOW

def wiringPiFindNode (pin : Int32) : Option WiringPiNode :=
  w.wiringPiNodes.find? fun node => node.pinBase ≤ pin ∧ pin ≤ node.pinMax

open WiringPiMode in
def digitalRead (pin : Int32) : Except Fault Int32 :=
  if pin.toUInt32 &&& PI_GPIO_MASK = 0 then  -- on-board pin
    match w.wiringPiMode with
    | WPI_MODE_GPIO_SYS => do
      match ← element w.sysFds pin with
      | none => return LOW
      | some c => return if c = '0' then LOW else HIGH
    | WPI_MODE_PINS => do w.readLevel (← element w.pinToGpio pin)
    | WPI_MODE_PHYS => do w.readLevel (← element w.physToGpio pin)
    | WPI_MODE_GPIO => w.readLevel pin
    | WPI_MODE_PIFACE => return LOW
    | WPI_MODE_UNINITIALISED => return LOW
  else
    match w.wiringPiFindNode pin with
    | none => return LOW
    | some node => return node.digitalRead pin

def digitalReadAll (inputReg : UInt16) : UInt32 :=
  if w.wiringPiMode = .WPI_MODE_GPIO_SYS then 0
  else w.gpio (13 + (if inputReg > 1 then 1 else inputReg).toNat)

/-! ## Setting resistors -/

/-- The offset of the pull-up and pull-down register. -/
def GPPUD : Nat := 37

/-- The offset of the register with the pull-up and pull-down clock of each GPIO. -/
def gpioToPUDCLK : Vector Nat 64 := Vector.replicate 32 38 ++ Vector.replicate 32 39

/-- A word written to a mapped register. -/
structure RegisterWrite where
  offset : Nat
  value : UInt32
  deriving DecidableEq, Repr

/-- The writes for a GPIO; the source waits for five microseconds after each. -/
def clockResistor (pin pud : Int32) : Except Fault (List RegisterWrite) := do
  let clock ← element gpioToPUDCLK pin
  return [⟨GPPUD, (pud &&& 3).toUInt32⟩, ⟨clock, 1 <<< (pin.toUInt32 &&& 31)⟩, ⟨GPPUD, 0⟩, ⟨clock, 0⟩]

open WiringPiMode in
/-- What the call writes; what an extension board does with it is left to that board. -/
def pullUpDnControl (pin pud : Int32) : Except Fault (List RegisterWrite) :=
  if pin.toUInt32 &&& PI_GPIO_MASK = 0 then  -- on-board pin
    match w.wiringPiMode with
    | WPI_MODE_PINS => do clockResistor (← element w.pinToGpio pin) pud
    | WPI_MODE_PHYS => do clockResistor (← element w.physToGpio pin) pud
    | WPI_MODE_GPIO => clockResistor pin pud
    | _ => return []
  else return []

/-- The interface of the program on top of the library; `reading` is the clock at elapsed time
zero. -/
def real (reading : UInt32) : RPiInterface where
  wiringPiSetupPhys := w.wiringPiSetupPhys.1
  physPinToGpio := w.physPinToGpio
  millis := RPiInterfaceReal.millis reading

theorem toList_physToGpioR2 : physToGpioR2.toList = RPiInterfaceEmulated.physToGpioR2 := by decide

/-- On boards of the second revision the library and the emulation have the same pins. -/
theorem real_eq (h : w.boardRev ≠ 1) (reading : UInt32) : w.real reading = RPiInterfaceReal reading := by
  have hpins : w.physPinToGpio = RPiInterfaceEmulated.physPinToGpio := by
    funext physPin
    unfold physPinToGpio RPiInterfaceEmulated.physPinToGpio physToGpio
    simp only [if_neg h, ← toList_physToGpioR2, Vector.getElem_toList]
    rfl
  unfold real
  rw [hpins]
  rfl

end WiringPi

end PulseCounter
