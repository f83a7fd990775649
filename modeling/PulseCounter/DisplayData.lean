import PulseCounter.DecodeGpioRegsAndAccumulate
import PulseCounter.PulseCounterConfiguration
import PulseCounter.Lib.Decimal
import Mathlib.Data.Rat.Defs

/-!
# What is displayed

`DisplayData` writes a header with the configured pins, a line with the counts and a summary, to
standard output or to the status file; with the status-only option it writes nothing to standard
output. A text is the list of the characters written by one call.

Three parts of C are left to the platform: the width of an `unsigned long`, the conversion of a
floating-point sum that does not fit one, which the language leaves undefined, and the digits `%.2f`
chooses. The floating-point values themselves are taken as the exact numbers they stand for, and a
division by zero as no number.
-/

namespace PulseCounter

inductive Stream where
  | stdout
  | file
  deriving DecidableEq, Repr

/-- What the C library and the compiler decide. -/
structure Platform where
  /-- The width of an `unsigned long`. -/
  ulongBits : Nat
  toUnsignedLong : Nat → BitVec ulongBits
  toUnsignedLong_of_lt : ∀ n, n < 2 ^ ulongBits → (toUnsignedLong n).toNat = n
  fixed2 : Option Rat → List Char

/-- A 32-bit platform whose conversion saturates and whose `%.2f` rounds halves up. -/
def Platform.saturating : Platform where
  ulongBits := 32
  toUnsignedLong n := BitVec.ofNat 32 (min n (2 ^ 32 - 1))
  toUnsignedLong_of_lt n hn := by
    rw [Nat.min_eq_left (Nat.le_sub_one_of_lt hn), BitVec.toNat_ofNat, Nat.mod_eq_of_lt hn]
  fixed2
    | none => "inf".toList
    | some q =>
      let hundredths := (100 * q + 1 / 2).floor
      Decimal.showInt (hundredths / 100) ++
        '.' :: (Nat.toDigits 10 (100 + (hundredths % 100).toNat)).drop 1

structure MinMaxT where
  _min : UInt32
  _max : UInt32
  _total : UInt32
  deriving DecidableEq, Repr

structure DisplayData where
  m_config : PulseCounterConfiguration
  m_nodisplay : Bool

/-- The values a summary prints. -/
structure Statics where
  duration : Rat
  fs : Option Rat
  mean : Nat
  min : UInt32
  max : UInt32
  delta : UInt32

/-- `%d` on an `unsigned int`: the word is taken for an `int`. -/
def asInt (x : UInt32) : Int := x.toInt32.toInt

namespace DisplayData

def hidden (d : DisplayData) (stream : Stream) : Bool := d.m_nodisplay && decide (stream = .stdout)

def header (d : DisplayData) (stream : Stream) : List Char :=
  if d.hidden stream then []
  else "Signal Counts for Each Pin\n".toList ++
    d.m_config.activePins.flatMap (fun activePin => Decimal.field 6 activePin.toInt) ++ ['\n']

def channels (d : DisplayData) (gpioPinAccumulation : List UInt32) (stream : Stream) : List Char :=
  if d.hidden stream then []
  else gpioPinAccumulation.flatMap (fun count => Decimal.field 6 (asInt count)) ++ ['\r']

/-- The loop of `findMinMax` on one entry after the first. -/
def updateMinMax (m : MinMaxT) (x : UInt32) : MinMaxT :=
  if x = 0 then m
  else {
    _total := m._total + 1
    _min := if m._min > x then x else m._min
    _max := if m._max < x then x else m._max }

def findMinMax (a : List UInt32) : Except Fault MinMaxT := do
  let first ← subscript a 0
  return (a.drop 1).foldl updateMinMax { _min := first, _max := first, _total := 1 }

/-- The exact sum of the counts, as `std::accumulate` forms it. -/
def accumulate (a : List UInt32) : Nat := (a.map UInt32.toNat).sum

/-- The values of `summary`; `duration` is in milliseconds. -/
def statics (p : Platform) (gpioPinAccumulation : List UInt32) (duration : UInt32) :
    Except Fault Statics := do
  let minmax ← findMinMax gpioPinAccumulation
  let sum := p.toUnsignedLong (accumulate gpioPinAccumulation)
  return {
    duration := duration.toNat / 1000
    fs := if duration = 0 then none else some (minmax._max.toNat / (duration.toNat / 1000 : Rat))
    mean := if minmax._total > 0 then sum.toNat / minmax._total.toNat else 0
    min := minmax._min
    max := minmax._max
    delta := minmax._max - minmax._min }

/-- The lines of a summary. -/
def printStatics (p : Platform) (s : Statics) : List Char :=
  "\nStatics -\n".toList ++
  "   duration - ".toList ++ p.fixed2 (some s.duration) ++ ['\n'] ++
  "   fs       - ".toList ++ p.fixed2 s.fs ++ ['\n'] ++
  "   mean     - ".toList ++ Nat.toDigits 10 s.mean ++ ['\n'] ++
  "   min      - ".toList ++ Decimal.showInt (asInt s.min) ++ ['\n'] ++
  "   max      - ".toList ++ Decimal.showInt (asInt s.max) ++ ['\n'] ++
  "   delta    - ".toList ++ Decimal.showInt (asInt s.delta) ++ ['\n']

def summary (d : DisplayData) (p : Platform) (gpioPinAccumulation : List UInt32)
    (duration : UInt32) (stream : Stream) : Except Fault (List Char) :=
  if d.hidden stream then .ok []
  else (statics p gpioPinAccumulation duration).map (printStatics p)

end DisplayData

/-- `SummaryToFile::dumpDataToFile`: the text of the status file, when it could be opened. -/
def dumpDataToFile (d : DisplayData) (p : Platform) (result : List UInt32) (duration : UInt32) :
    Except Fault (List Char) := do
  let summary ← d.summary p result duration .file
  return d.header .file ++ d.channels result .file ++ summary

end PulseCounter
