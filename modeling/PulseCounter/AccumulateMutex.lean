import PulseCounter.DecodeGpioRegsAndAccumulate
import PulseCounter.Lib.Machine

/-!
# Two threads on one decoder

The polling thread calls `process` on the words of a list, one after the other, while the main thread
calls `getResult` any number of times. Each call is the sequence of its small steps: take
`m_accumulate_mutex`, go through the channels one at a time, release it. `getResult` clears the local
vector before it takes the lock. A lock that is held cannot be taken, which is all that is assumed of
the mutex; the runs of the machine are the interleavings of the two threads.
-/

namespace PulseCounter

inductive Thread where
  | poller
  | main
  deriving DecidableEq, Repr

/-- Where the polling thread stands: between two calls, or in the loop of `process`. -/
inductive ProcessPc where
  | returned
  | inLoop (piGpioReg : UInt32) (i : Nat) (changesDetected : Bool)

/-- Where the main thread stands: between two calls, waiting for the lock, or in `copy`. -/
inductive GetResultPc where
  | returned
  | cleared
  | copying (i : Nat)

structure DecoderThreads where
  decoder : DecodeGpioRegsAndAccumulate
  m_accumulate_mutex : Option Thread
  poller : ProcessPc
  main : GetResultPc
  /-- The number of calls of `process` that have returned. -/
  processed : Nat
  /-- The vectors that `getResult` has returned, the first one first. -/
  results : List (List UInt32)

namespace DecoderThreads

inductive Action where
  | lockProcess
  | processChannel
  | unlockProcess
  | clearLocal
  | lockGetResult
  | copyChannel
  | unlockGetResult
  deriving DecidableEq, Repr

def start (decoder : DecodeGpioRegsAndAccumulate) : DecoderThreads where
  decoder := decoder
  m_accumulate_mutex := none
  poller := .returned
  main := .returned
  processed := 0
  results := []

/-- One small step, with `words` still to be processed from index `processed` on. -/
def step (words : List UInt32) (a : Action) (s : DecoderThreads) :
    Option (Except Fault DecoderThreads) :=
  match a with
  | .lockProcess =>
    match s.poller, s.m_accumulate_mutex, words[s.processed]? with
    | .returned, none, some word => some (.ok { s with
        m_accumulate_mutex := some .poller
        poller := .inLoop word 0 false })
    | _, _, _ => none
  | .processChannel =>
    match s.poller with
    | .inLoop word i changesDetected =>
      if i < s.decoder.m_configured_channels.totalChannels then
        some do
          let (decoder, changesDetected) ←
            DecodeGpioRegsAndAccumulate.processChannel word i (s.decoder, changesDetected)
          return { s with
            decoder := decoder
            poller := .inLoop word (i + 1) changesDetected }
      else none
    | .returned => none
  | .unlockProcess =>
    match s.poller with
    | .inLoop _ i _ =>
      if i < s.decoder.m_configured_channels.totalChannels then none
      else some (.ok { s with
        m_accumulate_mutex := none
        poller := .returned
        processed := s.processed + 1 })
    | .returned => none
  | .clearLocal =>
    match s.main with
    | .returned => some (.ok { s with
        decoder := s.decoder.clearLocal
        main := .cleared })
    | _ => none
  | .lockGetResult =>
    match s.main, s.m_accumulate_mutex with
    | .cleared, none => some (.ok { s with
        m_accumulate_mutex := some .main
        main := .copying 0 })
    | _, _ => none
  | .copyChannel =>
    match s.main with
    | .copying i =>
      if i < s.decoder.m_gpioPinAccumulation.length then
        some do
          let decoder ← DecodeGpioRegsAndAccumulate.copyChannel i s.decoder
          return { s with
            decoder := decoder
            main := .copying (i + 1) }
      else none
    | _ => none
  | .unlockGetResult =>
    match s.main with
    | .copying i =>
      if i < s.decoder.m_gpioPinAccumulation.length then none
      else some (.ok { s with
        m_accumulate_mutex := none
        main := .returned
        results := s.results ++ [s.decoder.m_gpioPinAccumulationLocal] })
    | _ => none

def machine (words : List UInt32) : Machine DecoderThreads Action Fault where
  step := step words

end DecoderThreads

end PulseCounter
