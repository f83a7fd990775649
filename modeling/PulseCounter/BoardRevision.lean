import PulseCounter.Lib.Fgets
import PulseCounter.WiringPi
import Mathlib.Data.List.DropRight

/-!
# The revision of the board

`piBoardRev` finds the revision of the board, by which the tables of the pins are chosen, in the text of
`/proc/cpuinfo`. It reads the file twice through a buffer of 120 characters, up to the line that names the
hardware and up to the line of the revision, and ends the process if it cannot make sense of it. A further
call returns what the first has found; what is printed for debugging is left out.
-/

namespace PulseCounter

namespace WiringPi

/-- How `piBoardRev` ends the process. -/
inductive BoardFailure where
  | oops (why : String)
  | unknownHardware (line : List Char)
  deriving DecidableEq, Repr

structure Board where
  boardRev : Int32
  piModel2 : Bool
  deriving DecidableEq, Repr

/-- The string in a buffer. -/
def cString (line : List Char) : List Char := line.takeWhile (· ≠ '\x00')

/-- `strncmp (line, key, 8) == 0`, for a key of eight characters. -/
def startsWith (key : String) (line : List Char) : Bool := key.toList.isPrefixOf (cString line)

/-- `strstr (line, key) != NULL`. -/
def strstr (key : String) (line : List Char) : Bool :=
  (cString line).tails.any fun rest => key.toList.isPrefixOf rest

/-- Whether a board is a model 2, from the line that names its hardware. -/
def piModel2 (line : List Char) : Except BoardFailure Bool :=
  if strstr "BCM2709" line then .ok true
  else if strstr "BCM2708" line then .ok false
  else .error (.unknownHardware (cString line))

/-- Chomp trailing CR/NL. -/
def chomp (line : List Char) : List Char := (cString line).rdropWhile fun c => c = '\n' ∨ c = '\r'

/-- The revision of a board, from the line that gives it. -/
def revision (line : List Char) : Except BoardFailure Int32 :=
  let c := (chomp line).dropWhile fun c => ¬c.isDigit
  if c = [] then .error (.oops "No numeric revision string")
  else if c.length < 4 then .error (.oops "Bogus \"Revision\" line (too small)")
  else
    let last4Chars := c.drop (c.length - 4)
    if last4Chars = "0002".toList ∨ last4Chars = "0003".toList then .ok 1 else .ok 2

/-- `buffer` is what the buffer holds before anything is read into it. -/
def piBoardRev (buffer : List Char) : Option (List Char) → Except BoardFailure Board
  | none => .error (.oops "Unable to open /proc/cpuinfo")
  | some text =>
    let line := Fgets.scan 118 (startsWith "Hardware") buffer text
    if startsWith "Hardware" line then do
      let model2 ← piModel2 line
      let line := Fgets.scan 118 (startsWith "Revision") line text
      if startsWith "Revision" line then
        return { boardRev := ← revision line, piModel2 := model2 }
      else .error (.oops "No \"Revision\" line")
    else .error (.oops "No \"Hardware\" line")

/-- The library on a board. -/
def onBoard (w : WiringPi) (board : Board) : WiringPi := { w with boardRev := board.boardRev }

end WiringPi

end PulseCounter
