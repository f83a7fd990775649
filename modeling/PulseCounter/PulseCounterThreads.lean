import PulseCounter.PulseCounterMain
import PulseCounter.AccumulateMutex

/-!
# The main program in small steps

The machine of `PulseCounterMain` takes a call of `process`, and a call of `getResult` together with the
call its result is handed to, as one step. Here these calls are the sequences of their own steps: the
polling thread reads and compares, takes `m_accumulate_mutex`, goes through the channels one at a time
and releases it; the main thread clears the local vector, takes the mutex, copies one channel at a time,
releases it, and displays the vector it was given a reference to while the polling thread is already at
work again.

The part of the state that both machines have is a `System`. While a call is under way it is as it was
before the call, the vectors of the decoder apart.
-/

namespace PulseCounter.PulseCounterMain

/-- Where the polling thread stands in `process`: not in it, before it takes the lock, or in its loop. -/
inductive ProcessPoint where
  | returned
  | called (word : UInt32)
  | inLoop (word : UInt32) (i : Nat) (changesDetected : Bool)
  deriving DecidableEq, Repr

/-- Where the main thread stands in a call for a report: not in it, waiting for the lock, in `copy`, or
with the result of `getResult` in its hands. Then it is settled whether the status file can be opened,
and `seen` tells how many words the decoder had been shown. -/
inductive CallPoint where
  | returned
  | cleared
  | copying (i : Nat)
  | displaying (opened : Bool) (seen : Nat)
  deriving DecidableEq, Repr

structure Threads where
  system : System
  m_accumulate_mutex : Option Thread
  process : ProcessPoint
  call : CallPoint

inductive SmallAction where
  | readFirst (word : UInt32)
  | testRunning
  | readNext (word : UInt32)
  | lockProcess
  | processChannel
  | unlockProcess
  | wake (elapsed : Nat)
  | clearLocal
  | lockGetResult
  | copyChannel
  | unlockGetResult (opened : Bool)
  | display
  | stop
  | join
  deriving DecidableEq, Repr

/-- The thread whose step it is. -/
def SmallAction.thread : SmallAction → Thread
  | .readFirst _ | .testRunning | .readNext _ | .lockProcess | .processChannel | .unlockProcess => .poller
  | .wake _ | .clearLocal | .lockGetResult | .copyChannel | .unlockGetResult _ | .display | .stop
  | .join => .main

namespace System

def decoder (s : System) : DecodeGpioRegsAndAccumulate := s.runner.m_decodeAndAccummulate

def withDecoder (s : System) (d : DecodeGpioRegsAndAccumulate) : System :=
  { s with runner := { s.runner with m_decodeAndAccummulate := d } }

/-- The call for a report that the main thread is about to make, if it is. -/
def nextReport (s : System) : Option (List UInt32 → Report) :=
  match s.main with
  | .reporting => some .channels
  | .dumping => some (.dumpDataToFile · s.loop.duration)
  | .looping => if s.loop.process then none else some .channels
  | .summing => some (.summary · s.loop.duration)
  | _ => none

/-- The main thread after the call for a report. -/
def afterReport (s : System) : System :=
  match s.main with
  | .reporting => { s with main := .dumping }
  | .dumping => { s with
      loop := s.loop.displayed
      main := .looping
      point := s.point + 1 }
  | .looping => { s with main := .summing }
  | .summing => { s with main := .stopping }
  | _ => s

end System

namespace Threads

/-- No call is under way. -/
def start (system : System) : Threads where
  system := system
  m_accumulate_mutex := none
  process := .returned
  call := .returned

variable (p : Platform) (rpi : RPiInterface) (config : PulseCounterConfiguration)

/-- A step that both machines have. -/
def shared (a : Action) (s : Threads) : Option (Except Fault Threads) :=
  (PulseCounterMain.step p rpi config a s.system).map (Except.map fun system => { s with
    system := system })

/-- One small step of one of the threads. -/
def step (a : SmallAction) (s : Threads) : Option (Except Fault Threads) :=
  match a with
  | .readFirst word => s.shared p rpi config (.readFirst word)
  | .testRunning => s.shared p rpi config .testRunning
  | .readNext word =>
    match s.system.poller, s.process with
    | .reading last, .returned =>
      if s.system.masked word ≠ last then some (.ok { s with process := .called word })
      else s.shared p rpi config (.readNext word)
    | _, _ => none
  | .lockProcess =>
    match s.process, s.m_accumulate_mutex with
    | .called word, none => some (.ok { s with
        m_accumulate_mutex := some .poller
        process := .inLoop word 0 false })
    | _, _ => none
  | .processChannel =>
    match s.process with
    | .inLoop word i changesDetected =>
      if i < s.system.decoder.m_configured_channels.totalChannels then
        some do
          let (d, changesDetected) ← DecodeGpioRegsAndAccumulate.processChannel
            (s.system.masked word) i (s.system.decoder, changesDetected)
          return { s with
            system := s.system.withDecoder d
            process := .inLoop word (i + 1) changesDetected }
      else none
    | _ => none
  | .unlockProcess =>
    match s.process with
    | .inLoop word i _ =>
      if i < s.system.decoder.m_configured_channels.totalChannels then none
      else some (.ok { s with
        system := { s.system with
          poller := .testing (s.system.masked word)
          reads := s.system.reads ++ [word]
          shown := s.system.shown ++ [s.system.masked word] }
        m_accumulate_mutex := none
        process := .returned })
    | _ => none
  | .wake elapsed => s.shared p rpi config (.wake elapsed)
  | .clearLocal =>
    match s.call, s.system.nextReport with
    | .returned, some _ => some (.ok { s with
        system := s.system.withDecoder s.system.decoder.clearLocal
        call := .cleared })
    | _, _ => none
  | .lockGetResult =>
    match s.call, s.m_accumulate_mutex with
    | .cleared, none => some (.ok { s with
        m_accumulate_mutex := some .main
        call := .copying 0 })
    | _, _ => none
  | .copyChannel =>
    match s.call with
    | .copying i =>
      if i < s.system.decoder.m_gpioPinAccumulation.length then
        some do
          let d ← DecodeGpioRegsAndAccumulate.copyChannel i s.system.decoder
          return { s with
            system := s.system.withDecoder d
            call := .copying (i + 1) }
      else none
    | _ => none
  | .unlockGetResult opened =>
    match s.call with
    | .copying i =>
      if i < s.system.decoder.m_gpioPinAccumulation.length then none
      else some (.ok { s with
        m_accumulate_mutex := none
        call := .displaying opened s.system.shown.length })
    | _ => none
  | .display =>
    match s.call, s.system.nextReport with
    | .displaying opened seen, some call =>
      let report := call s.system.decoder.m_gpioPinAccumulationLocal
      some do
        let text ← report.text (PulseCounterMain.display config) p opened
        return { s with
          system := System.afterReport { s.system with
            emitted := s.system.emitted ++ [{
              report := report
              text := text
              opened := report.opens opened
              point := s.system.point
              elapsed := s.system.elapsed
              seen := seen }] }
          call := .returned }
    | _, _ => none
  | .stop => s.shared p rpi config .stop
  | .join => s.shared p rpi config .join

def machine : Machine Threads SmallAction Fault where
  step := step p rpi config

/-- A run whose threads take the small steps of a list in turn. -/
def schedule (cc : ConfiguredChannels) (actions : List SmallAction) : Option (Except Fault Threads) :=
  match PulseCounterMain.start rpi config cc with
  | .ok (some s) => (machine p rpi config).exec actions (start s)
  | .ok none => none
  | .error e => some (.error e)

end Threads

end PulseCounter.PulseCounterMain
