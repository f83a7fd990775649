import PulseCounter.ProcessCommandLine
import PulseCounter.PulseCounterMain
import PulseCounter.WiringPi

/-!
# The program

`main` parses the command line, gets the hardware interface and runs. It returns `-1` when the command line
is rejected and `0` otherwise, also when it has caught an exception. A failed assertion ends the process in a
build that checks assertions, and where the language leaves the behaviour undefined there is nothing to be
caught.
-/

namespace PulseCounter

/-- What `main` has come to when the polling thread starts: it has returned, it runs, or it has failed. -/
inductive Program where
  | returned (status : Int32)
  | running (config : PulseCounterConfiguration) (system : PulseCounterMain.System)
  | failed (fault : Fault)

/-- What is left of `main` once the run has started or has failed to: exceptions are caught. -/
def Program.ofStart (config : PulseCounterConfiguration) :
    Except Fault (Option PulseCounterMain.System) → Program
  | .ok (some system) => .running config system
  | .ok none => .returned 0
  | .error (.runtime_error _) => .returned 0
  | .error fault => .failed fault

/-- `main` on the interface that the registry gives it, when all calls of `pullUpDnControl` return. -/
def main (parse_command_line : List String → Except String VariablesMap) (rpi : RPiInterface)
    (argv : List String) : Program :=
  match ProcessCommandLine.parse parse_command_line argv {} with
  | (false, _) => .returned (-1)
  | (true, config) => .ofStart config (PulseCounterMain.start rpi config (.new rpi))

/-! ## On the board -/

namespace WiringPi

/-- The library after a call of the start-up, and what the call writes to the registers. -/
def perform (w : WiringPi) : Call → Except Fault (WiringPi × List RegisterWrite)
  | .wiringPiSetupPhys => return (w.wiringPiSetupPhys.2, [])
  | .addChannel _ => return (w, [])
  | .physPinToGpio _ => return (w, [])
  | .pullUpDnControl pin pud => return (w, ← w.pullUpDnControl pin pud)

/-- What the calls write one after the other. -/
def performAll (w : WiringPi) : List Call → Except Fault (List RegisterWrite)
  | [] => return []
  | call :: calls => do
    let (w, writes) ← w.perform call
    return writes ++ (← performAll w calls)

/-- `main` on the library once it is set up: the calls of the start-up come before all that can fail
otherwise. -/
def main (w : WiringPi) (reading : UInt32)
    (parse_command_line : List String → Except String VariablesMap) (argv : List String) : Program :=
  match ProcessCommandLine.parse parse_command_line argv {} with
  | (false, _) => .returned (-1)
  | (true, config) =>
    let rpi := w.real reading
    match w.performAll (PulseCounterMain.setUp rpi config (.new rpi)).2 with
    | .error fault => .failed fault
    | .ok _ => .ofStart config (PulseCounterMain.start rpi config (.new rpi))

end WiringPi

end PulseCounter
