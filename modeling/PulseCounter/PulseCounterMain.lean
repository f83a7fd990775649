import PulseCounter.PollAndAccumulateRunner
import PulseCounter.DisplayData
import PulseCounter.Lib.Machine

/-!
# The main program

`PulseCounterMain::run` sets up the hardware and the channel table, starts the polling thread, and
then wakes once a second to decide whether the time is up and whether a report is due. At the end it
reports once more, stops the polling thread and joins it.

`setUp` is the part before the polling thread, with the calls it makes on the hardware interface and
on the channel table. From then on the two threads are one machine (`System`): a call of `process` or
of `getResult` is one step, and the words the polling thread reads and the times at which the main
thread wakes are part of the actions. The machine keeps what is written for the reports; the lines printed
before the header are `announcement`. What goes to the error stream and to the log is left out.
-/

namespace PulseCounter

/-- A call that `run` makes before the polling thread starts. -/
inductive Call where
  | wiringPiSetupPhys
  | addChannel (pin : Int32)
  | physPinToGpio (pin : Int32)
  | pullUpDnControl (pin pud : Int32)
  deriving DecidableEq, Repr

namespace PulseCounterMain

/-! ## Start-up -/

/-- One round of the loop over the active pins; `addChannel` itself looks the pin up. -/
def configurePin (config : PulseCounterConfiguration) (s : ConfiguredChannels × List Call)
    (activePin : Int32) : ConfiguredChannels × List Call :=
  (s.1.addChannel activePin, s.2 ++ [
    .addChannel activePin,
    .physPinToGpio activePin,
    .pullUpDnControl activePin config.pullUpDownState.toInt])

/-- The calls up to the start of the polling thread, and the channel table unless the set-up of the
hardware failed. -/
def setUp (rpi : RPiInterface) (config : PulseCounterConfiguration) (cc : ConfiguredChannels) :
    Option ConfiguredChannels × List Call :=
  if rpi.wiringPiSetupPhys < 0 then (none, [.wiringPiSetupPhys])
  else
    let (cc, calls) := config.activePins.foldl (configurePin config) (cc, [.wiringPiSetupPhys])
    (some cc, calls)

/-! ## The loop of the main thread -/

def TIMING_TOLERANCE : UInt32 := 5  -- milliseconds

structure LoopState where
  process : Bool
  start : UInt32
  current : UInt32
  previous_display : UInt32
  deriving DecidableEq, Repr

namespace LoopState

def new (now : UInt32) : LoopState where
  process := true
  start := now
  current := now
  previous_display := now

/-- The duration a report is given. -/
def duration (l : LoopState) : UInt32 := l.current - l.start

/-- An iteration up to the test whether a report is due, at the clock reading `now`. -/
def wake (config : PulseCounterConfiguration) (l : LoopState) (now : UInt32) : LoopState :=
  let l := { l with current := now }
  if config.duration > 0 then
    if l.current - l.start + TIMING_TOLERANCE ≥ config.duration * 1000 then
      { l with process := false }
    else l
  else l

def displayDue (l : LoopState) : Bool :=
  decide (l.current - l.previous_display + TIMING_TOLERANCE ≥ 1000)

def displayed (l : LoopState) : LoopState := { l with previous_display := l.current }

/-- Whether an iteration at the clock reading `now` finds that the time is up. -/
def timeUp (config : PulseCounterConfiguration) (l : LoopState) (now : UInt32) : Bool :=
  decide (config.duration > 0) &&
    decide (now - l.start + TIMING_TOLERANCE ≥ config.duration * 1000)

theorem wake_eq (config : PulseCounterConfiguration) (l : LoopState) (now : UInt32) :
    l.wake config now = { l with
      current := now
      process := !l.timeUp config now && l.process } := by
  unfold wake timeUp
  by_cases hduration : config.duration > 0
  · by_cases hup : now - l.start + TIMING_TOLERANCE ≥ config.duration * 1000
    · simp [hduration, hup]
    · simp [hduration, hup]
  · simp [hduration]

/-- A whole iteration, as far as the timing goes. -/
def iterate (config : PulseCounterConfiguration) (l : LoopState) (now : UInt32) : LoopState :=
  let l := l.wake config now
  if l.displayDue then l.displayed else l

/-- After `k` iterations that are let run on whatever the flag says; `now` gives the clock readings. -/
def after (config : PulseCounterConfiguration) (l : LoopState) (now : Nat → UInt32) : Nat → LoopState
  | 0 => l
  | k + 1 => (l.after config now k).iterate config (now k)

end LoopState

/-! ## Reports -/

/-- A call that hands a vector of counts to the display. -/
inductive Report where
  | channels (result : List UInt32)
  | dumpDataToFile (result : List UInt32) (duration : UInt32)
  | summary (result : List UInt32) (duration : UInt32)
  deriving DecidableEq, Repr

namespace Report

def result : Report → List UInt32
  | .channels result => result
  | .dumpDataToFile result _ => result
  | .summary result _ => result

def duration? : Report → Option UInt32
  | .channels _ => none
  | .dumpDataToFile _ duration => some duration
  | .summary _ duration => some duration

/-- Whether the call opens the status file; `opened` tells whether that can be done. -/
def opens (opened : Bool) : Report → Bool
  | .dumpDataToFile _ _ => opened
  | .channels _ | .summary _ _ => false

/-- The text the call writes; `opened` tells whether the status file could be opened. -/
def text (d : DisplayData) (p : Platform) (opened : Bool) : Report → Except Fault (List Char)
  | .channels result => .ok (d.channels result .stdout)
  | .dumpDataToFile result duration =>
    if opened then PulseCounter.dumpDataToFile d p result duration else .ok []
  | .summary result duration => d.summary p result duration .stdout

end Report

/-- A call for a report, with what it wrote. The other fields are not in the program: whether the call
opened the status file, which report of the run it belongs to, the true elapsed time when the clock was
read for it, and how many words the decoder had been shown. -/
structure Emission where
  report : Report
  text : List Char
  opened : Bool
  point : Nat
  elapsed : Nat
  seen : Nat

/-! ## The two threads -/

/-- Where the polling thread stands: before the read that precedes the loop, at the test of the loop,
before the read of an iteration, or at its end. -/
inductive PollPc where
  | starting
  | testing (last : UInt32)
  | reading (last : UInt32)
  | exited
  deriving DecidableEq, Repr

/-- Where the main thread stands: at the test of its loop, before and between the two calls of a
one-second report, between the two calls of the final report, before `stop`, in `join`, or at the
end. -/
inductive MainPc where
  | looping
  | reporting
  | dumping
  | summing
  | stopping
  | joining
  | finished
  deriving DecidableEq, Repr

structure System where
  runner : PollAndAccumulateRunner
  poller : PollPc
  loop : LoopState
  main : MainPc
  /-- What `display.header()` wrote. -/
  header : List Char
  emitted : List Emission
  /-- The number of the report that is being made, or the next one. -/
  point : Nat
  /-- The true elapsed time of the last clock reading. -/
  elapsed : Nat
  /-- The register words the polling thread has read, the first one first. -/
  reads : List UInt32
  /-- The words the decoder was shown, the first one first. -/
  shown : List UInt32

/-- An action of one of the threads. `wake` carries the true elapsed time at which the main thread
reads the clock after its sleep. -/
inductive Action where
  | readFirst (word : UInt32)
  | testRunning
  | readNext (word : UInt32)
  | wake (elapsed : Nat)
  | channels
  | dumpDataToFile (opened : Bool)
  | summary
  | stop
  | join
  deriving DecidableEq, Repr

namespace System

def counts (s : System) : List UInt32 := s.runner.m_decodeAndAccummulate.m_gpioPinAccumulation

/-- The word left of a register word by the channel mask. -/
def masked (s : System) (word : UInt32) : UInt32 := word &&& s.runner.m_gpio_channel_mask

/-- `getResult` and the call that its result is handed to. -/
def emit (d : DisplayData) (p : Platform) (opened : Bool) (call : List UInt32 → Report)
    (s : System) : Except Fault System := do
  let (runner, result) ← s.runner.getResult
  let text ← (call result).text d p opened
  return { s with
    runner := runner
    emitted := s.emitted ++ [{
      report := call result
      text := text
      opened := (call result).opens opened
      point := s.point
      elapsed := s.elapsed
      seen := s.shown.length }] }

end System

/-- What `run` prints before the header. -/
def announcement (config : PulseCounterConfiguration) : List Char :=
  "Configured with multi thread display\n".toList ++
    if config.duration = 0 then "sample forever\n".toList
    else "sample for ".toList ++ Decimal.showInt (asInt config.duration) ++ " seconds\n".toList

/-- The part of a report that goes to standard output. -/
def Emission.console (e : Emission) : List Char :=
  match e.report with
  | .channels _ | .summary _ _ => e.text
  | .dumpDataToFile _ _ => []

/-- Standard output so far. With `--debug` it has log records among the lines, which are left open. -/
def System.console (config : PulseCounterConfiguration) (s : System) : Option (List Char) :=
  if config.showDebug then none
  else some (announcement config ++ s.header ++ s.emitted.flatMap Emission.console)

/-- The display of a run. -/
def display (config : PulseCounterConfiguration) : DisplayData := ⟨config, config.statusonly⟩

/-- `run` up to its loop, unless the set-up of the hardware failed; the polling thread is just
starting. -/
def start (rpi : RPiInterface) (config : PulseCounterConfiguration) (cc : ConfiguredChannels) :
    Except Fault (Option System) :=
  match (setUp rpi config cc).1 with
  | none => .ok none
  | some cc => do
    let mask ← cc.getChannelsMask
    let runner ← PollAndAccumulateRunner.new cc mask
    return some {
      runner := runner
      poller := .starting
      loop := .new (rpi.millis 0)
      main := .looping
      header := (display config).header .stdout
      emitted := []
      point := 0
      elapsed := 0
      reads := []
      shown := [] }

/-- One step of one of the threads. -/
def step (p : Platform) (rpi : RPiInterface) (config : PulseCounterConfiguration) (a : Action)
    (s : System) : Option (Except Fault System) :=
  match a with
  | .readFirst word =>
    match s.poller with
    | .starting => some (.ok { s with
        poller := .testing (s.masked word)
        reads := s.reads ++ [word] })
    | _ => none
  | .testRunning =>
    match s.poller with
    | .testing last => some (.ok { s with
        poller := if s.runner.m_keepThreadRunning then .reading last else .exited })
    | _ => none
  | .readNext word =>
    match s.poller with
    | .reading last => some do
        let (runner, last') ← s.runner.pollOnce last word
        return { s with
          runner := runner
          poller := .testing last'
          reads := s.reads ++ [word]
          shown := if s.masked word ≠ last then s.shown ++ [s.masked word] else s.shown }
    | _ => none
  | .wake elapsed =>
    -- the sleep takes a second at least
    if s.main = .looping ∧ s.loop.process ∧ s.elapsed + 1000 ≤ elapsed then
      let loop := s.loop.wake config (rpi.millis elapsed)
      some (.ok { s with
        loop := loop
        elapsed := elapsed
        main := if loop.displayDue then .reporting else .looping })
    else none
  | .channels =>
    match s.main with
    | .reporting => some do
        let s ← s.emit (display config) p true .channels
        return { s with main := .dumping }
    | .looping =>
      -- the loop has ended: the final report
      if s.loop.process then none
      else some do
        let s ← s.emit (display config) p true .channels
        return { s with main := .summing }
    | _ => none
  | .dumpDataToFile opened =>
    match s.main with
    | .dumping => some do
        let s ← s.emit (display config) p opened (.dumpDataToFile · s.loop.duration)
        return { s with
          loop := s.loop.displayed
          main := .looping
          point := s.point + 1 }
    | _ => none
  | .summary =>
    match s.main with
    | .summing => some do
        let s ← s.emit (display config) p true (.summary · s.loop.duration)
        return { s with main := .stopping }
    | _ => none
  | .stop =>
    match s.main with
    | .stopping => some (.ok { s with runner := s.runner.stop, main := .joining })
    | _ => none
  | .join =>
    if s.main = .joining ∧ s.poller = .exited then some (.ok { s with main := .finished })
    else none

def machine (p : Platform) (rpi : RPiInterface) (config : PulseCounterConfiguration) :
    Machine System Action Fault where
  step := step p rpi config

/-- A run whose threads take the actions of a list in turn. -/
def schedule (p : Platform) (rpi : RPiInterface) (config : PulseCounterConfiguration)
    (cc : ConfiguredChannels) (actions : List Action) : Option (Except Fault System) :=
  match start rpi config cc with
  | .ok (some s) => (machine p rpi config).exec actions s
  | .ok none => none
  | .error e => some (.error e)

end PulseCounterMain

end PulseCounter
