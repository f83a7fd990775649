import PulseCounter.DecodeGpioRegsAndAccumulate

/-!
# The polling loop

`run` reads the register once, keeps the masked word in `last`, and then compares every further read
with it while the thread is to keep running: a word that differs goes to the decoder and becomes the
new `last`, a word that does not is skipped (the thread may sleep then, which changes nothing here).
The words read are the input. `loop_eq` reads the whole loop as the decoder run on the words that
differ from the one before them.
-/

namespace PulseCounter

structure PollAndAccumulateRunner where
  m_decodeAndAccummulate : DecodeGpioRegsAndAccumulate
  m_keepThreadRunning : Bool
  m_gpio_channel_mask : UInt32

namespace PollAndAccumulateRunner

def new (configured_channels : ConfiguredChannels) (gpio_channel_mask : UInt32) :
    Except Fault PollAndAccumulateRunner := do
  let decodeAndAccummulate ← DecodeGpioRegsAndAccumulate.new configured_channels
  return {
    m_decodeAndAccummulate := decodeAndAccummulate
    m_keepThreadRunning := true
    m_gpio_channel_mask := gpio_channel_mask }

/-- The body of the loop of `run` on one register word, with the loop's own `last`. -/
def pollOnce (r : PollAndAccumulateRunner) (last word : UInt32) :
    Except Fault (PollAndAccumulateRunner × UInt32) :=
  let v := word &&& r.m_gpio_channel_mask
  if v ≠ last then do
    let (d, _) ← r.m_decodeAndAccummulate.process v
    return ({ r with m_decodeAndAccummulate := d }, v)
  else
    return (r, last)

/-- The loop of `run` on the words it reads until it is stopped. -/
def loop (r : PollAndAccumulateRunner) (last : UInt32) :
    List UInt32 → Except Fault (PollAndAccumulateRunner × UInt32)
  | [] => .ok (r, last)
  | word :: words => do
    let (r, last) ← r.pollOnce last word
    loop r last words

/-- `run`: `first` is the read before the loop. -/
def run (r : PollAndAccumulateRunner) (first : UInt32) (words : List UInt32) :
    Except Fault PollAndAccumulateRunner := do
  let (r, _) ← loop r (first &&& r.m_gpio_channel_mask) words
  return r

def stop (r : PollAndAccumulateRunner) : PollAndAccumulateRunner :=
  { r with m_keepThreadRunning := false }

def getResult (r : PollAndAccumulateRunner) :
    Except Fault (PollAndAccumulateRunner × List UInt32) := do
  let (d, counts) ← r.m_decodeAndAccummulate.getResult
  return ({ r with m_decodeAndAccummulate := d }, counts)

/-- The runner as `PulseCounterMain` sets it up, run on the reads `first` and `words` until it is
stopped and has ended. -/
def pollUntilStopped (cc : ConfiguredChannels) (first : UInt32) (words : List UInt32) :
    Except Fault PollAndAccumulateRunner := do
  let mask ← cc.getChannelsMask
  let r ← new cc mask
  let r ← r.run first words
  return r.stop

/-- The counts when the loop has exited. -/
def pollCounts (cc : ConfiguredChannels) (first : UInt32) (words : List UInt32) :
    Except Fault (List UInt32) := do
  let r ← pollUntilStopped cc first words
  let (_, counts) ← r.getResult
  return counts

/-! ## The loop and the decoder -/

theorem pollOnce_of_ne {r : PollAndAccumulateRunner} {last word : UInt32}
    (h : word &&& r.m_gpio_channel_mask ≠ last) :
    r.pollOnce last word = (r.m_decodeAndAccummulate.process (word &&& r.m_gpio_channel_mask)).map
      fun p => ({ r with m_decodeAndAccummulate := p.1 }, word &&& r.m_gpio_channel_mask) := by
  unfold pollOnce
  rw [if_pos h]
  cases r.m_decodeAndAccummulate.process (word &&& r.m_gpio_channel_mask) <;> rfl

theorem pollOnce_of_eq {r : PollAndAccumulateRunner} {last word : UInt32}
    (h : word &&& r.m_gpio_channel_mask = last) : r.pollOnce last word = .ok (r, last) := by
  unfold pollOnce
  rw [if_neg (not_not_intro h)]
  rfl

/-- **The loop is the decoder on the changes** of the masked words, faults included. -/
theorem loop_eq (r : PollAndAccumulateRunner) (last : UInt32) (words : List UInt32) :
    r.loop last words =
      (r.m_decodeAndAccummulate.processAll
        (Signal.changes last (words.map (· &&& r.m_gpio_channel_mask)))).map
      fun p => ({ r with m_decodeAndAccummulate := p.1 },
        (words.map (· &&& r.m_gpio_channel_mask)).getLastD last) := by
  induction words generalizing r last with
  | nil => rfl
  | cons word words ih =>
    unfold loop
    rw [List.map_cons, List.getLastD_cons]
    by_cases h : word &&& r.m_gpio_channel_mask = last
    · rw [pollOnce_of_eq h, h, Signal.changes_cons_self]
      exact ih r last
    · rw [pollOnce_of_ne h, Signal.changes_cons_of_ne h]
      unfold DecodeGpioRegsAndAccumulate.processAll
      cases r.m_decodeAndAccummulate.process (word &&& r.m_gpio_channel_mask) with
      | error e => rfl
      | ok p =>
        obtain ⟨d, changesDetected⟩ := p
        refine (ih { r with m_decodeAndAccummulate := d } _).trans ?_
        simp only [bind, Except.bind]
        cases d.processAll _ <;> rfl

end PollAndAccumulateRunner

end PulseCounter
