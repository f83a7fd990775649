import Mathlib.Algebra.Order.Ring.Int

/-!
# The hardware interface

What the program can observe of the board through `RPiInterface`: the GPIO number of a physical pin,
the outcome of the set-up call and the millisecond clock. Register words read by `digitalReadAll`
are inputs of the runs and not part of this structure; the calls without a result appear in the
traces of the callers.

`Fault` lists the ways a step of the program can go wrong: an `assert` that fails (in a build that
checks assertions), a thrown `std::runtime_error`, an index outside a vector and a shift by an amount
the language leaves undefined.
-/

namespace PulseCounter

/-- How a step of the program can fail. -/
inductive Fault where
  | assertion (text : String)
  | runtime_error (what : String)
  | subscript (index : Nat)
  | shift (amount : Int32)
  deriving DecidableEq, Repr

/-- The part of `RPiInterface` whose results the program uses. `millis` gives the reading of the
clock at a true elapsed time in milliseconds. -/
structure RPiInterface where
  wiringPiSetupPhys : Int32
  physPinToGpio : Int32 → Int32
  millis : Nat → UInt32

namespace RPiInterfaceEmulated

/-- The initialisers of the table: GPIO number of each physical position, `-1` for the positions that
carry no GPIO. -/
def describedPins : List Int32 := [
  -1,      -- 0
  -1, -1,  -- 1, 2
  2, -1,   -- 3, 4
  3, -1,   -- 5, 6
  4, 14,   -- 7, 8
  -1, 15,  -- 9, 10
  17, 18,  -- 11, 12
  27, -1,  -- 13, 14
  22, 23,  -- 15, 16
  -1, 24,  -- 17, 18
  10, -1,  -- 19, 20
  9, 25,   -- 21, 22
  11, 8,   -- 23, 24
  -1, 7,   -- 25, 26
  -- B+
  0, 1,    -- 27, 28
  5, -1,   -- 29, 30
  6, 12,   -- 31, 32
  13, -1,  -- 33, 34
  19, 16,  -- 35, 36
  26, 20,  -- 37, 38
  -1, 21,  -- 39, 40
  -- the P5 connector on the Rev 2 boards
  -1, -1,
  -1, -1,
  -1, -1,
  -1, -1,
  -1, -1,
  28, 29,
  30, 31,
  -1, -1,
  -1, -1,
  -1, -1,
  -1, -1]

def MAX_PHYS_ARR : Nat := 64

/-- The array has one position more than its initialisers fill; the language sets it to zero. -/
def physToGpioR2 : List Int32 :=
  describedPins ++ List.replicate (MAX_PHYS_ARR - describedPins.length) 0

/-- `physPin & (MAX_PHYS_ARR - 1)`. -/
def maskedPin (physPin : Int32) : Nat := (physPin &&& (Int32.ofNat MAX_PHYS_ARR - 1)).toNatClampNeg

/-- The masked pin number is always a position of the table: the lookup wraps silently. -/
theorem maskedPin_lt (physPin : Int32) : maskedPin physPin < physToGpioR2.length := by
  have hle : (physPin.toBitVec &&& 63#32).toNat ≤ 63 := by
    rw [BitVec.toNat_and]
    exact Nat.and_le_right
  have hpos : (physPin.toBitVec &&& 63#32).toInt = (physPin.toBitVec &&& 63#32).toNat := by
    rw [BitVec.toInt_eq_toNat_of_lt]
    omega
  have hmask : maskedPin physPin = (physPin.toBitVec &&& 63#32).toInt.toNat := rfl
  have hlen : physToGpioR2.length = 64 := rfl
  omega

def physPinToGpio (physPin : Int32) : Int32 :=
  have := maskedPin_lt physPin
  physToGpioR2[maskedPin physPin]

example : physPinToGpio 11 = 17 := by decide
example : physPinToGpio (-1) = 0 := by decide

/-- The milliseconds of the local time of day, read at whole seconds; `localStart` is the time of
day at elapsed time zero. -/
def millis (localStart elapsed : Nat) : UInt32 :=
  UInt32.ofNat ((localStart + elapsed) / 1000 % 86400 * 1000)

/-- The register, with the state of `toggle` after the read: its levels change with every read. -/
def digitalReadAll (toggle : Bool) : Bool × UInt32 :=
  let toggle := !toggle
  (toggle, if toggle then 0xFFFFFFFF else 0)

/-- The words of so many reads. -/
def readAll (toggle : Bool) : Nat → List UInt32
  | 0 => []
  | n + 1 => (digitalReadAll toggle).2 :: readAll (digitalReadAll toggle).1 n

example : readAll false 4 = [0xFFFFFFFF, 0, 0xFFFFFFFF, 0] := by decide

end RPiInterfaceEmulated

/-- The emulated board of the tests. -/
def RPiInterfaceEmulated (localStart : Nat) : RPiInterface where
  wiringPiSetupPhys := 0
  physPinToGpio := RPiInterfaceEmulated.physPinToGpio
  millis := RPiInterfaceEmulated.millis localStart

/-- The clock of the board: a 32-bit count of milliseconds that reads `reading` at elapsed time
zero. -/
def RPiInterfaceReal.millis (reading : UInt32) (elapsed : Nat) : UInt32 :=
  UInt32.ofNat (reading.toNat + elapsed)

theorem RPiInterfaceReal.millis_sub_millis (reading : UInt32) (elapsed : Nat) :
    millis reading elapsed - millis reading 0 = UInt32.ofNat elapsed := by
  have hread : ∀ t, millis reading t = reading + UInt32.ofNat t := by
    intro t
    rw [millis, UInt32.ofNat_add, UInt32.ofNat_toNat]
  rw [hread, hread]
  have hzero : UInt32.ofNat 0 = 0 := rfl
  rw [hzero, UInt32.add_zero, UInt32.add_comm, UInt32.add_sub_cancel]

/-- The board, once it is set up: wiringPi's table for Rev 2 boards has the same initialisers. -/
def RPiInterfaceReal (reading : UInt32) : RPiInterface where
  wiringPiSetupPhys := 0
  physPinToGpio := RPiInterfaceEmulated.physPinToGpio
  millis := RPiInterfaceReal.millis reading

end PulseCounter
