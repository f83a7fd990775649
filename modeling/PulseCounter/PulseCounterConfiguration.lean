import PulseCounter.RPiInterface

/-!
# The configuration of a run

The record the command line fills in, with the defaults of its constructor.
-/

namespace PulseCounter

inductive PullUpState where
  | PullUpState_Off
  | PullUpState_Down
  | PullUpState_Up
  | PullUpState_NotInitialised
  deriving DecidableEq, Repr

/-- The value of the enumerator, as it is passed for an `int`. -/
def PullUpState.toInt : PullUpState → Int32
  | .PullUpState_Off => 0
  | .PullUpState_Down => 1
  | .PullUpState_Up => 2
  | .PullUpState_NotInitialised => 3

structure PulseCounterConfiguration where
  showDebug : Bool := false
  duration : UInt32 := 0
  pullUpDownState : PullUpState := .PullUpState_Off
  statusonly : Bool := false
  statusfname : String := "/tmp/status.txt"
  activePins : List Int32 := []
  cpuRestPeriod : Int32 := 300  -- us
  deriving DecidableEq, Repr

end PulseCounter
