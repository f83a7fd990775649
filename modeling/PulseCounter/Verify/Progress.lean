import PulseCounter.Verify.Interleavings
import PulseCounter.Verify.Timing

/-!
# How a run ends

Two measures go down with the small steps. Once the polling thread has been told to stop, `pollLeft` bounds
what it still does, so a run in `join` ends whatever the schedule is (`shutdown_bounded`). `mainLeft` bounds
what the main thread still does when it wakes no more than a given number of times. In a timed run whose
clock does not go round the time is up at the last of these (`timed_run_bounded`).

A run ends because the time is up and for no other reason, so an unlimited one does not end, while a timed
one can end from wherever it is (`run_can_end_iff`).
-/

namespace PulseCounter.PulseCounterMain

open DecodeGpioRegsAndAccumulate

variable {p : Platform} {rpi : RPiInterface} {config : PulseCounterConfiguration}
  {cc : ConfiguredChannels} {s₀ t : System} {x y : Threads}

namespace System

/-- Where the main thread goes after a call for a report. -/
def afterMain : MainPc → MainPc
  | .looping => .summing
  | .reporting => .dumping
  | .dumping => .looping
  | .summing => .stopping
  | pc => pc

theorem afterReport_main (s : System) : s.afterReport.main = afterMain s.main := by
  obtain ⟨_, _, _, main⟩ := s
  cases main <;> rfl

theorem afterReport_process (s : System) : s.afterReport.loop.process = s.loop.process := by
  obtain ⟨_, _, _, main⟩ := s
  cases main <;> rfl

theorem afterReport_elapsed (s : System) : s.afterReport.elapsed = s.elapsed := by
  obtain ⟨_, _, _, main⟩ := s
  cases main <;> rfl

end System

/-! ## What is left to do -/

namespace Threads

/-- The steps of the polling thread that are left when it is not to go on, for `n` channels. -/
def pollLeft (n : Nat) (x : Threads) : Nat :=
  match x.process, x.system.poller with
  | .called _, _ => n + 3
  | .inLoop _ i _, _ => n - i + 2
  | .returned, .starting => 2
  | .returned, .testing _ => 1
  | .returned, .reading _ => n + 4
  | .returned, .exited => 0

/-- The steps that are left of a call for a report. -/
def callLeft (n : Nat) : CallPoint → Nat
  | .returned => n + 4
  | .cleared => n + 3
  | .copying i => n - i + 2
  | .displaying _ _ => 1

/-- The steps of the main thread that are left after the call for a report that it is making, or after
its loop, when it wakes `wakes` times more. -/
def reportsLeft (n wakes : Nat) : MainPc → Nat
  | .looping => n + 6
  | .reporting => n + 4 + wakes * (2 * n + 9) + 2 * n + 10
  | .dumping => wakes * (2 * n + 9) + 2 * n + 10
  | .summing => 2
  | .stopping => 2
  | .joining => 1
  | .finished => 0

/-- The steps of the main thread that are left when it wakes `wakes` times more. -/
def mainLeft (n wakes : Nat) (x : Threads) : Nat :=
  if x.system.nextReport.isSome then callLeft n x.call + reportsLeft n wakes x.system.main
  else if x.system.main = .looping then wakes * (2 * n + 9) + 2 * n + 10
  else reportsLeft n wakes x.system.main

section Left

variable {n wakes : Nat}

theorem mainLeft_of_some {c : List UInt32 → Report} (h : x.system.nextReport = some c) :
    mainLeft n wakes x = callLeft n x.call + reportsLeft n wakes x.system.main := by
  unfold mainLeft
  rw [h]
  rfl

theorem mainLeft_of_none (h : x.system.nextReport = none) : mainLeft n wakes x =
    if x.system.main = .looping then wakes * (2 * n + 9) + 2 * n + 10
    else reportsLeft n wakes x.system.main := by
  unfold mainLeft
  rw [h]
  rfl

/-- Inside a call for a report. -/
theorem mainLeft_lt {call : List UInt32 → Report} (hx : x.system.nextReport = some call)
    (hnext : y.system.nextReport = x.system.nextReport) (hmain : y.system.main = x.system.main)
    (hcall : callLeft n y.call < callLeft n x.call) : mainLeft n wakes y < mainLeft n wakes x := by
  rw [mainLeft_of_some hx, mainLeft_of_some (hnext.trans hx), hmain]
  exact Nat.add_lt_add_right hcall _

/-- After a call for a report. -/
theorem mainLeft_afterReport {s : System} {call : List UInt32 → Report}
    (hnext : s.nextReport = some call) (mutex : Option Thread) (process : ProcessPoint) :
    mainLeft n wakes ⟨s.afterReport, mutex, process, .returned⟩ ≤ reportsLeft n wakes s.main := by
  unfold System.nextReport at hnext
  cases hmain : s.main with
  | looping =>
    rw [System.afterReport_looping hmain, mainLeft_of_some (c := (.summary · s.loop.duration)) rfl]
    simp only [callLeft, reportsLeft]
    omega
  | reporting =>
    rw [System.afterReport_reporting hmain,
      mainLeft_of_some (c := (.dumpDataToFile · s.loop.duration)) rfl]
    simp only [callLeft, reportsLeft]
    omega
  | dumping =>
    rw [System.afterReport_dumping hmain]
    unfold mainLeft
    split
    · simp only [callLeft, reportsLeft]
      omega
    · exact Nat.le_refl _
  | summing =>
    rw [System.afterReport_summing hmain, mainLeft_of_none rfl]
    exact Nat.le_refl _
  | stopping => simp [hmain] at hnext
  | joining => simp [hmain] at hnext
  | finished => simp [hmain] at hnext

theorem mainLeft_mono {wakes' : Nat} (x : Threads) (h : wakes ≤ wakes') :
    mainLeft n wakes x ≤ mainLeft n wakes' x := by
  have hmul := Nat.mul_le_mul_right (2 * n + 9) h
  unfold mainLeft
  split
  · cases x.system.main <;> simp only [reportsLeft] <;> omega
  · split
    · omega
    · cases x.system.main <;> simp only [reportsLeft] <;> omega

/-- A step of the main thread, unless it wakes. -/
theorem mainLeft_main (h : Follows p rpi config cc x t) {a : SmallAction}
    (hs : SmallSteps p rpi config x a y) (hthread : a.thread = .main)
    (hwake : ∀ elapsed, a ≠ .wake elapsed) :
    mainLeft cc.totalChannels wakes y < mainLeft cc.totalChannels wakes x := by
  have hcall := h.call
  cases hs with
  | readFirst | testRunning | skip | callProcess | lockProcess | processChannel | unlockProcess =>
    cases hthread
  | wake elapsed hmain hprocess hgap => exact absurd rfl (hwake elapsed)
  | clearLocal call hpc hnext =>
    refine mainLeft_lt hnext rfl rfl ?_
    rw [hpc]
    exact Nat.lt_succ_self _
  | lockGetResult hpc hfree =>
    rw [hpc] at hcall
    obtain ⟨call, hnext⟩ := Option.isSome_iff_exists.mp hcall.2.1
    refine mainLeft_lt hnext rfl rfl ?_
    rw [hpc]
    exact Nat.lt_succ_self _
  | copyChannel i count hpc hcount =>
    rw [hpc] at hcall
    obtain ⟨hown, hsome, -⟩ := hcall
    obtain ⟨call, hnext⟩ := Option.isSome_iff_exists.mp hsome
    have hi := (List.getElem?_eq_some_iff.mp hcount).1
    rw [(h.process.saw (by rw [hown]; simp)).accumulation, length_countsAfter] at hi
    refine mainLeft_lt hnext rfl rfl ?_
    rw [hpc]
    simp only [callLeft]
    omega
  | unlockGetResult i opened hpc hi =>
    rw [hpc] at hcall
    obtain ⟨call, hnext⟩ := Option.isSome_iff_exists.mp hcall.2.1
    refine mainLeft_lt hnext rfl rfl ?_
    rw [hpc]
    simp only [callLeft]
    omega
  | display opened seen call text hpc hnext htext =>
    rw [mainLeft_of_some hnext, hpc]
    refine Nat.lt_of_le_of_lt (mainLeft_afterReport (s := { x.system with
      emitted := x.system.emitted ++ _ }) hnext _ _) ?_
    simp only [callLeft]
    omega
  | stop hmain =>
    rw [mainLeft_of_none rfl, mainLeft_of_none (by unfold System.nextReport; rw [hmain]), hmain]
    exact Nat.lt_succ_self _
  | join hmain hexited =>
    rw [mainLeft_of_none rfl, mainLeft_of_none (by unfold System.nextReport; rw [hmain]), hmain]
    exact Nat.lt_succ_self _

/-- Waking up uses up one time. -/
theorem mainLeft_wake (h : Follows p rpi config cc x t) (hmain : x.system.main = .looping)
    (hprocess : x.system.loop.process = true) (now : UInt32) (elapsed : Nat) :
    mainLeft n wakes { x with system := x.system.woken config now elapsed } <
      mainLeft n (wakes + 1) x := by
  have hnext : x.system.nextReport = none := by
    unfold System.nextReport
    simp only [hmain, hprocess, if_true]
  rw [mainLeft_of_none hnext, if_pos hmain, Nat.add_one_mul]
  unfold mainLeft System.woken
  rw [h.returned hnext]
  simp only [callLeft]
  by_cases hdue : (x.system.loop.wake config now).displayDue = true
  · rw [if_pos hdue]
    split
    · simp only [reportsLeft]
      omega
    · next hnone => exact absurd rfl hnone
  · rw [if_neg hdue, if_pos rfl]
    simp only [reportsLeft]
    split <;> omega

/-- The polling thread does not change what the main thread has to do. -/
theorem mainLeft_poller {a : SmallAction} (hs : SmallSteps p rpi config x a y)
    (hthread : a.thread = .poller) : mainLeft n wakes y = mainLeft n wakes x := by
  cases hs with
  | readFirst | testRunning | skip | callProcess | lockProcess | processChannel | unlockProcess => rfl
  | wake | clearLocal | lockGetResult | copyChannel | unlockGetResult | display | stop | join =>
    cases hthread

/-- The main thread does not change what the polling thread has to do. -/
theorem pollLeft_main {a : SmallAction} (hs : SmallSteps p rpi config x a y)
    (hthread : a.thread = .main) : pollLeft n y = pollLeft n x := by
  cases hs with
  | readFirst | testRunning | skip | callProcess | lockProcess | processChannel | unlockProcess =>
    cases hthread
  | wake | clearLocal | lockGetResult | copyChannel | unlockGetResult | stop | join => rfl
  | display opened seen call text hpc hnext htext =>
    unfold pollLeft
    rw [System.afterReport_eq]
    rfl

/-- A step of the polling thread that is not to go on, or stands in its loop over the channels. -/
theorem pollLeft_poller (h : Follows p rpi config cc x t) {a : SmallAction}
    (hs : SmallSteps p rpi config x a y) (hthread : a.thread = .poller)
    (hstopped : x.system.runner.m_keepThreadRunning = false ∨
      ∃ word i changesDetected, x.process = .inLoop word i changesDetected) :
    pollLeft cc.totalChannels y < pollLeft cc.totalChannels x := by
  have hprocess := h.process
  unfold pollLeft
  cases hs with
  | readFirst word hpc =>
    have hidle := h.idle fun last hreading => by
      rw [hpc] at hreading
      cases hreading
    simp only [hpc, hidle]
    exact Nat.lt_succ_self _
  | testRunning last hpc =>
    have hidle := h.idle fun last hreading => by
      rw [hpc] at hreading
      cases hreading
    rcases hstopped with hkeep | ⟨word, i, changesDetected, hloop⟩
    · simp [hpc, hidle, hkeep]
    · rw [hidle] at hloop
      cases hloop
  | skip word last hpc hidle hsame =>
    simp only [hpc, hidle]
    omega
  | callProcess word last hpc hidle hne =>
    simp only [hpc, hidle]
    omega
  | lockProcess word hpc hfree =>
    simp only [hpc]
    omega
  | processChannel word i changesDetected changesDetected' d hpc hi hrun =>
    rw [hpc] at hprocess
    rw [hprocess.2.2.1] at hi
    simp only [hpc]
    omega
  | unlockProcess word i changesDetected hpc hi =>
    simp only [hpc]
    omega
  | wake | clearLocal | lockGetResult | copyChannel | unlockGetResult | display | stop | join =>
    cases hthread

end Left

/-! ## The order in which a run ends, in small steps -/

section Order

theorem settled_process (x : Threads) : (x.settled p config).loop.process = x.system.loop.process := by
  unfold settled
  split
  · exact System.afterReport_process _
  · rfl

theorem settled_elapsed (x : Threads) : (x.settled p config).elapsed = x.system.elapsed := by
  unfold settled
  split
  · exact System.afterReport_elapsed _
  · rfl

/-- A report in hand may have been the last before the end of the run. -/
theorem settled_main (x : Threads) : (x.settled p config).main = x.system.main ∨
    (x.settled p config).main = System.afterMain x.system.main := by
  unfold settled
  split
  · exact .inr (System.afterReport_main _)
  · exact .inl rfl

namespace Follows

/-- The order is that of the state that is followed. -/
theorem inOrder (h : Follows p rpi config cc x t) (ht : InOrder rpi config t) :
    InOrder rpi config x.system := by
  have hkeep : t.runner.m_keepThreadRunning = x.system.runner.m_keepThreadRunning := by rw [h.runner]
  have hprocess : t.loop.process = x.system.loop.process := by
    rw [h.system]
    exact settled_process x
  have helapsed : t.elapsed = x.system.elapsed := by
    rw [h.system]
    exact settled_elapsed x
  have hexited : x.system.poller = .exited → x.system.runner.m_keepThreadRunning = false := by
    rw [← h.poller, ← hkeep]
    exact ht.exited
  have hbegun : x.system.elapsed = 0 → x.system.loop.process = true := by
    rw [← helapsed, ← hprocess]
    exact ht.begun
  have hdue : x.system.elapsed ≠ 0 → x.system.loop.process =
      !(LoopState.new (rpi.millis 0)).timeUp config (rpi.millis x.system.elapsed) := by
    rw [← helapsed, ← hprocess]
    exact ht.due
  cases hnext : x.system.nextReport with
  | none =>
    have hmain : t.main = x.system.main := by
      rw [h.system, settled_of_nextReport hnext]
      rfl
    refine ⟨?_, hexited, ?_, ?_, hbegun, hdue⟩
    · rw [← hkeep, ← hmain]
      exact ht.keep
    · rw [← hmain, ← h.poller]
      exact ht.joined
    · rw [← hmain, ← hprocess]
      exact ht.process
  | some call =>
    have hmain : t.main = x.system.main ∨ t.main = System.afterMain x.system.main := by
      rw [h.system]
      exact settled_main x
    unfold System.nextReport at hnext
    cases hpc : x.system.main with
    | looping | reporting | dumping =>
      have hup : x.system.runner.m_keepThreadRunning ≠ false := by
        rw [← hkeep, ne_eq, ht.keep]
        rcases hmain with hmain | hmain <;> rw [hmain, hpc] <;> simp [System.afterMain]
      exact ⟨by simp [hup, hpc], hexited, by simp [hpc], by simp [hpc], hbegun, hdue⟩
    | summing =>
      have hup : x.system.runner.m_keepThreadRunning ≠ false := by
        rw [← hkeep, ne_eq, ht.keep]
        rcases hmain with hmain | hmain <;> rw [hmain, hpc] <;> simp [System.afterMain]
      have hdown : x.system.loop.process = false := by
        rw [← hprocess]
        refine ht.process ?_
        rcases hmain with hmain | hmain <;> rw [hmain, hpc] <;> simp [System.afterMain]
      exact ⟨by simp [hup, hpc], hexited, by simp [hpc], fun _ => hdown, hbegun, hdue⟩
    | stopping | joining | finished => simp [hpc] at hnext

end Follows

end Order

end Threads

theorem inOrder_of_reachable (hstart : start rpi config cc = .ok (some s₀))
    (hx : (Threads.machine p rpi config).Reachable (.start s₀) x) : InOrder rpi config x.system := by
  obtain ⟨⟨t, ht, h⟩, -⟩ := follows_of_reachable hstart hx
  exact h.inOrder (small_reachable hstart ht).2.1

/-! ## The shutdown -/

section Shutdown

/-- The step reads the register. -/
def SmallAction.reads : SmallAction → Bool
  | .readFirst _ | .readNext _ => true
  | _ => false

/-- The reads of the register that are left when the polling thread is not to go on. -/
def Threads.readsLeft (x : Threads) : Nat :=
  match x.process, x.system.poller with
  | .returned, .starting => 1
  | .returned, .reading _ => 1
  | _, _ => 0

/-- The run has told the polling thread to stop. -/
def Threads.Stopped (x : Threads) : Prop := x.system.main = .joining ∨ x.system.main = .finished

/-- What is left to do until the end. -/
def Threads.shutdownLeft (n : Nat) (x : Threads) : Nat :=
  x.pollLeft n + if x.system.main = .joining then 1 else 0

theorem Threads.Stopped.nextReport (h : x.Stopped) : x.system.nextReport = none := by
  unfold System.nextReport
  rcases h with hmain | hmain <;> rw [hmain]

/-- Once it has told the polling thread to stop, the main thread can only join it. -/
theorem Threads.Stopped.main (h : x.Stopped) (hf : Follows p rpi config cc x t) {a : SmallAction}
    (hs : SmallSteps p rpi config x a y) (hthread : a.thread = .main) :
    x.system.main = .joining ∧ a.reads = false ∧
      y = { x with system := { x.system with main := .finished } } := by
  have hcall := hf.returned h.nextReport
  cases hs with
  | readFirst | testRunning | skip | callProcess | lockProcess | processChannel | unlockProcess =>
    cases hthread
  | wake elapsed hmain => rcases h with h | h <;> rw [h] at hmain <;> cases hmain
  | clearLocal call hpc hnext =>
    rw [h.nextReport] at hnext
    cases hnext
  | lockGetResult hpc hfree =>
    rw [hcall] at hpc
    cases hpc
  | copyChannel i count hpc =>
    rw [hcall] at hpc
    cases hpc
  | unlockGetResult i opened hpc =>
    rw [hcall] at hpc
    cases hpc
  | display opened seen call text hpc =>
    rw [hcall] at hpc
    cases hpc
  | stop hmain => rcases h with h | h <;> rw [h] at hmain <;> cases hmain
  | join hmain hexited => exact ⟨hmain, rfl, rfl⟩

/-- The polling thread leaves the main thread and the reports alone. -/
theorem poller_small_steps {a : SmallAction} (hs : SmallSteps p rpi config x a y)
    (hthread : a.thread = .poller) :
    y.system.main = x.system.main ∧ y.system.emitted = x.system.emitted ∧
      y.system.loop = x.system.loop ∧ y.system.elapsed = x.system.elapsed := by
  cases hs with
  | readFirst | testRunning | skip | callProcess | lockProcess | processChannel | unlockProcess =>
    exact ⟨rfl, rfl, rfl, rfl⟩
  | wake | clearLocal | lockGetResult | copyChannel | unlockGetResult | display | stop | join =>
    cases hthread

/-- A polling thread that is not to go on reads the register once more at most. -/
theorem readsLeft_poller (h : Threads.Follows p rpi config cc x t) {a : SmallAction}
    (hs : SmallSteps p rpi config x a y) (hthread : a.thread = .poller)
    (hkeep : x.system.runner.m_keepThreadRunning = false) :
    y.readsLeft + (if a.reads then 1 else 0) ≤ x.readsLeft := by
  unfold Threads.readsLeft
  cases hs with
  | readFirst word hpc =>
    have hidle := h.idle fun last hreading => by
      rw [hpc] at hreading
      cases hreading
    simp [hpc, hidle, SmallAction.reads]
  | testRunning last hpc =>
    have hidle := h.idle fun last hreading => by
      rw [hpc] at hreading
      cases hreading
    simp [hpc, hidle, hkeep, SmallAction.reads]
  | skip word last hpc hidle hsame => simp [hpc, hidle, SmallAction.reads]
  | callProcess word last hpc hidle hne => simp [hpc, hidle, SmallAction.reads]
  | lockProcess word hpc hfree => simp [hpc, SmallAction.reads]
  | processChannel word i changesDetected changesDetected' d hpc hi hrun =>
    simp [hpc, SmallAction.reads]
  | unlockProcess word i changesDetected hpc hi => simp [hpc, SmallAction.reads]
  | wake | clearLocal | lockGetResult | copyChannel | unlockGetResult | display | stop | join =>
    cases hthread

theorem pollLeft_le (n : Nat) (x : Threads) : x.pollLeft n ≤ n + 4 := by
  unfold Threads.pollLeft
  split <;> omega

theorem readsLeft_le (x : Threads) : x.readsLeft ≤ 1 := by
  unfold Threads.readsLeft
  split <;> omega

/-- A step of the shutdown: less is left to do, no more is read than is left to read, and nothing is
displayed. -/
theorem shutdown_step (hstart : start rpi config cc = .ok (some s₀)) {u v : Threads}
    (hu : (Threads.machine p rpi config).Reachable (.start s₀) u) (hstopped : u.Stopped) {a : SmallAction}
    (hs : (Threads.machine p rpi config).step a u = some (.ok v)) :
    v.Stopped ∧ v.system.emitted = u.system.emitted ∧
      v.shutdownLeft (cc.addChannels config.activePins).totalChannels <
        u.shutdownLeft (cc.addChannels config.activePins).totalChannels ∧
      v.readsLeft + (if a.reads then 1 else 0) ≤ u.readsLeft := by
  obtain ⟨t, h, hsteps⟩ := small_steps_of_reachable hstart hu hs
  unfold Threads.shutdownLeft
  cases hthread : a.thread with
  | poller =>
    have hkeep := (inOrder_of_reachable hstart hu).keep.mpr hstopped
    obtain ⟨hsame, hemitted, -⟩ := poller_small_steps hsteps hthread
    refine ⟨?_, hemitted, ?_, readsLeft_poller h hsteps hthread hkeep⟩
    · unfold Threads.Stopped
      rw [hsame]
      exact hstopped
    · rw [hsame]
      exact Nat.add_lt_add_right (Threads.pollLeft_poller h hsteps hthread (.inl hkeep)) _
  | main =>
    obtain ⟨hjoining, hreads, rfl⟩ := hstopped.main h hsteps hthread
    refine ⟨.inr rfl, rfl, ?_, ?_⟩
    · rw [hjoining]
      exact Nat.lt_succ_self _
    · rw [hreads]
      exact Nat.le_refl _

/-- **The shutdown is bounded.** From the moment the main thread waits in `join`, whatever the schedule:
the threads take at most as many steps as there are channels, and five more, in which the register is read
once at most and nothing is displayed; and until the run has ended some thread can take a step. -/
theorem shutdown_bounded (p : Platform) (rpi : RPiInterface) (config : PulseCounterConfiguration)
    (cc : ConfiguredChannels) (s₀ : System) (hstart : start rpi config cc = .ok (some s₀))
    (x : Threads) (hx : (Threads.machine p rpi config).Reachable (.start s₀) x)
    (hmain : x.system.main = .joining) (actions : List SmallAction) (y : Threads)
    (hy : (Threads.machine p rpi config).exec actions x = some (.ok y)) :
    actions.length ≤ (cc.addChannels config.activePins).totalChannels + 5 ∧
      actions.countP SmallAction.reads ≤ 1 ∧ y.system.emitted = x.system.emitted ∧
      (y.system.main = .finished ∨ ∃ thread, Threads.CanStep p rpi config thread y) := by
  obtain ⟨-, hn, hrange⟩ := channels_of_start hstart
  have hstep : ∀ a u v, ((Threads.machine p rpi config).Reachable (.start s₀) u ∧ u.Stopped ∧
      u.system.emitted = x.system.emitted) → (Threads.machine p rpi config).step a u = some (.ok v) →
      (Threads.machine p rpi config).Reachable (.start s₀) v ∧ v.Stopped ∧
        v.system.emitted = x.system.emitted := by
    rintro a u v ⟨hu, hstopped, hemitted⟩ hs
    obtain ⟨hstopped', hsame, -⟩ := shutdown_step hstart hu hstopped hs
    exact ⟨hu.step hs, hstopped', hsame.trans hemitted⟩
  obtain ⟨⟨hreach, -, hemitted⟩, hlength⟩ := Machine.exec_countP_le
    (fun u => (Threads.machine p rpi config).Reachable (.start s₀) u ∧ u.Stopped ∧
      u.system.emitted = x.system.emitted) (fun _ => True) (fun _ => true)
    (Threads.shutdownLeft (cc.addChannels config.activePins).totalChannels)
    (fun a u v _ hu hs => ⟨hstep a u v hu hs, (shutdown_step hstart hu.1 hu.2.1 hs).2.2.1⟩) actions
    (fun _ _ => trivial) ⟨hx, .inl hmain, rfl⟩ hy
  obtain ⟨-, hreads⟩ := Machine.exec_countP_le
    (fun u => (Threads.machine p rpi config).Reachable (.start s₀) u ∧ u.Stopped ∧
      u.system.emitted = x.system.emitted) (fun _ => True) SmallAction.reads Threads.readsLeft
    (fun a u v _ hu hs => ⟨hstep a u v hu hs, (shutdown_step hstart hu.1 hu.2.1 hs).2.2.2⟩) actions
    (fun _ _ => trivial) ⟨hx, .inl hmain, rfl⟩ hy
  refine ⟨?_, Nat.le_trans (Nat.le_of_add_right_le hreads) (readsLeft_le x), hemitted, ?_⟩
  · rw [List.countP_true] at hlength
    unfold Threads.shutdownLeft at hlength
    rw [if_pos hmain] at hlength
    have hle := pollLeft_le (cc.addChannels config.activePins).totalChannels x
    omega
  · by_cases hfinished : y.system.main = .finished
    · exact .inl hfinished
    · obtain ⟨⟨t, -, h⟩, -⟩ := follows_of_reachable hstart hreach
      exact .inr (h.someone hn hrange hfinished)

/-- A run of one second on one channel, up to `join`. -/
def SmallAction.oneSecond : List SmallAction :=
  [.readFirst 0, .testRunning, .wake 1000] ++ report ++ report ++ report ++ report ++ [.stop]

/-- The end of a run whose polling thread is told to stop when it is about to read a new word. -/
def SmallAction.shutdown : List SmallAction :=
  [.readNext 0x20000, .lockProcess, .processChannel, .unlockProcess, .testRunning, .join]

/-- The polling thread is told to stop when it is about to read a new word: all the steps are taken. -/
theorem shutdown_bounded_one :
    ∃ s₀ x y, start (RPiInterfaceReal 7) { activePins := [11], duration := 1 }
        (.new (RPiInterfaceReal 7)) = .ok (some s₀) ∧
      (Threads.machine .saturating (RPiInterfaceReal 7) { activePins := [11], duration := 1 }).Reachable
        (.start s₀) x ∧
      (Threads.machine .saturating (RPiInterfaceReal 7) { activePins := [11], duration := 1 }).exec
        SmallAction.shutdown x = some (.ok y) ∧
      y.system.emitted = x.system.emitted ∧ SmallAction.shutdown.length = 1 + 5 := by
  obtain ⟨s₀, x, hstart, hexec, hmain⟩ := threads_of_schedule .saturating (RPiInterfaceReal 7)
    { activePins := [11], duration := 1 } (.new (RPiInterfaceReal 7)) SmallAction.oneSecond
    (fun x => x.system.main) .joining (by decide +kernel)
  obtain ⟨s₀', y, hstart', hexec', -⟩ := threads_of_schedule .saturating (RPiInterfaceReal 7)
    { activePins := [11], duration := 1 } (.new (RPiInterfaceReal 7))
    (SmallAction.oneSecond ++ SmallAction.shutdown) (fun x => x.system.main) .finished
    (by decide +kernel)
  obtain rfl : s₀ = s₀' := Option.some.inj (Except.ok.inj (hstart.symm.trans hstart'))
  rw [Machine.exec_append, hexec] at hexec'
  have hreach := Machine.Reachable.of_exec hexec
  obtain ⟨-, -, hemitted, -⟩ :=
    shutdown_bounded _ _ _ _ s₀ hstart x hreach hmain SmallAction.shutdown y hexec'
  exact ⟨s₀, x, y, hstart, hreach, hexec', hemitted, rfl⟩

end Shutdown

/-! ## Timed runs -/

section Timed

/-- How often the main thread still wakes, when the time is up after so many seconds. -/
def System.wakesLeft (seconds : Nat) (s : System) : Nat :=
  if s.loop.process then seconds - s.elapsed / 1000 else 0

/-- The step is a reading of the clock. -/
def SmallAction.wakes : SmallAction → Bool
  | .wake _ => true
  | _ => false

/-- Only a reading of the clock changes the flag of the loop or the elapsed time. -/
theorem clock_small_steps {a : SmallAction} (hs : SmallSteps p rpi config x a y)
    (hwake : a.wakes = false) :
    y.system.loop.process = x.system.loop.process ∧ y.system.elapsed = x.system.elapsed := by
  cases hs with
  | wake => cases hwake
  | display =>
    exact ⟨System.afterReport_process _, System.afterReport_elapsed _⟩
  | readFirst | testRunning | skip | callProcess | lockProcess | processChannel | unlockProcess
  | clearLocal | lockGetResult | copyChannel | unlockGetResult | stop | join => exact ⟨rfl, rfl⟩

/-- While the flag is up and the clock has not gone round, the duration is not over. -/
theorem InOrder.early {s : System} (h : InOrder rpi config s) {reading : UInt32}
    (hclock : rpi.millis = RPiInterfaceReal.millis reading) (hduration : config.duration > 0)
    (hfits : 1000 * config.duration.toNat < 2 ^ 32) (hround : s.elapsed + 5 < 2 ^ 32)
    (hprocess : s.loop.process = true) : s.elapsed < 1000 * config.duration.toNat := by
  by_cases hzero : s.elapsed = 0
  · have hpos : 0 < config.duration.toNat := hduration
    omega
  · have hdue := h.due hzero
    rw [hprocess, hclock, Eq.comm, Bool.not_eq_true', Bool.eq_false_iff, ne_eq,
      timeUp_iff hduration reading, Nat.mod_eq_of_lt hfits, Nat.mod_eq_of_lt hround] at hdue
    omega

/-- A reading of the clock before the duration is over is one of those that are left. -/
theorem System.wakesLeft_woken {s : System} {seconds elapsed : Nat} (now : UInt32)
    (hprocess : s.loop.process = true) (hearly : s.elapsed < 1000 * seconds)
    (hgap : s.elapsed + 1000 ≤ elapsed) :
    (s.woken config now elapsed).wakesLeft seconds + 1 ≤ s.wakesLeft seconds := by
  have helapsed : (s.woken config now elapsed).elapsed = elapsed := rfl
  unfold System.wakesLeft
  rw [if_pos hprocess, helapsed]
  split <;> omega

/-- A step of a timed run whose clock has not gone round: no more readings of the clock and no more steps of
the main thread than are left. -/
theorem timed_step {reading : UInt32} (hclock : rpi.millis = RPiInterfaceReal.millis reading)
    (hduration : config.duration > 0) (hfits : 1000 * config.duration.toNat < 2 ^ 32)
    (hstart : start rpi config cc = .ok (some s₀)) {u v : Threads}
    (hu : (Threads.machine p rpi config).Reachable (.start s₀) u) (hbefore : u.system.elapsed + 5 < 2 ^ 32)
    {a : SmallAction} (hround : ∀ elapsed, a = .wake elapsed → elapsed + 5 < 2 ^ 32)
    (hs : (Threads.machine p rpi config).step a u = some (.ok v)) :
    v.system.elapsed + 5 < 2 ^ 32 ∧
      v.system.wakesLeft config.duration.toNat + (if a.wakes then 1 else 0) ≤
        u.system.wakesLeft config.duration.toNat ∧
      v.mainLeft (cc.addChannels config.activePins).totalChannels
          (v.system.wakesLeft config.duration.toNat) + (if decide (a.thread = .main) then 1 else 0) ≤
        u.mainLeft (cc.addChannels config.activePins).totalChannels
          (u.system.wakesLeft config.duration.toNat) := by
  obtain ⟨t, h, hsteps⟩ := small_steps_of_reachable hstart hu hs
  cases hwakes : a.wakes with
  | true =>
    cases hsteps with
    | wake elapsed hmain hprocess hgap =>
      have hearly := (inOrder_of_reachable hstart hu).early hclock hduration hfits hbefore hprocess
      have hless : (u.system.woken config (rpi.millis elapsed) elapsed).wakesLeft
          config.duration.toNat + 1 ≤ u.system.wakesLeft config.duration.toNat :=
        System.wakesLeft_woken _ hprocess hearly hgap
      refine ⟨hround elapsed rfl, hless, ?_⟩
      exact Nat.le_trans (Threads.mainLeft_wake h hmain hprocess _ elapsed)
        (Threads.mainLeft_mono _ hless)
    | readFirst | testRunning | skip | callProcess | lockProcess | processChannel | unlockProcess
    | clearLocal | lockGetResult | copyChannel | unlockGetResult | display | stop | join => cases hwakes
  | false =>
    obtain ⟨hsame, helapsed⟩ := clock_small_steps hsteps hwakes
    have hleft : v.system.wakesLeft config.duration.toNat =
        u.system.wakesLeft config.duration.toNat := by
      unfold System.wakesLeft
      rw [hsame, helapsed]
    refine ⟨by rw [helapsed]; exact hbefore, Nat.le_of_eq hleft, ?_⟩
    rw [hleft]
    cases hthread : a.thread with
    | poller => exact Nat.le_of_eq (Threads.mainLeft_poller hsteps hthread)
    | main =>
      refine Threads.mainLeft_main h hsteps hthread fun elapsed ha => ?_
      rw [ha] at hwakes
      cases hwakes

/-- **A timed run is bounded**, with the 32-bit clock of the board. If the duration fits the clock and the
clock has not gone round at any of its readings, then whatever the schedule, the main thread reads the clock
after the start once for each second of the duration at most, and the number of its steps is bounded in the
duration and the number of channels. -/
theorem timed_run_bounded (p : Platform) (rpi : RPiInterface) (config : PulseCounterConfiguration)
    (cc : ConfiguredChannels) (reading : UInt32)
    (hclock : rpi.millis = RPiInterfaceReal.millis reading) (hduration : config.duration > 0)
    (hfits : 1000 * config.duration.toNat < 2 ^ 32) (s₀ : System)
    (hstart : start rpi config cc = .ok (some s₀)) (actions : List SmallAction)
    (hround : ∀ elapsed, .wake elapsed ∈ actions → elapsed + 5 < 2 ^ 32) (y : Threads)
    (hy : (Threads.machine p rpi config).exec actions (.start s₀) = some (.ok y)) :
    actions.countP SmallAction.wakes ≤ config.duration.toNat ∧
      actions.countP (fun a => a.thread = .main) ≤
        config.duration.toNat * (2 * (cc.addChannels config.activePins).totalChannels + 9) +
          2 * (cc.addChannels config.activePins).totalChannels + 10 := by
  have hok : ∀ a ∈ actions, ∀ elapsed, a = .wake elapsed → elapsed + 5 < 2 ^ 32 := by
    rintro a ha elapsed rfl
    exact hround elapsed ha
  have hleft : s₀.wakesLeft config.duration.toNat = config.duration.toNat := by
    obtain ⟨runner, -, rfl⟩ := eq_of_start hstart
    simp [System.wakesLeft, LoopState.new]
  have hmainLeft : Threads.mainLeft (cc.addChannels config.activePins).totalChannels
      (s₀.wakesLeft config.duration.toNat) (.start s₀) =
      config.duration.toNat * (2 * (cc.addChannels config.activePins).totalChannels + 9) +
        2 * (cc.addChannels config.activePins).totalChannels + 10 := by
    rw [hleft]
    obtain ⟨runner, -, rfl⟩ := eq_of_start hstart
    rfl
  have h0 : (Threads.machine p rpi config).Reachable (.start s₀) (.start s₀) ∧
      (Threads.start s₀).system.elapsed + 5 < 2 ^ 32 := by
    refine ⟨.refl _ _, ?_⟩
    obtain ⟨runner, -, rfl⟩ := eq_of_start hstart
    exact (by decide : 0 + 5 < 2 ^ 32)
  obtain ⟨-, hwakes⟩ := Machine.exec_countP_le
    (fun u => (Threads.machine p rpi config).Reachable (.start s₀) u ∧ u.system.elapsed + 5 < 2 ^ 32)
    (fun a => ∀ elapsed, a = .wake elapsed → elapsed + 5 < 2 ^ 32) SmallAction.wakes
    (fun u => u.system.wakesLeft config.duration.toNat)
    (fun a u v ha hu hs =>
      have hstep := timed_step hclock hduration hfits hstart hu.1 hu.2 ha hs
      ⟨⟨hu.1.step hs, hstep.1⟩, hstep.2.1⟩) actions hok h0 hy
  obtain ⟨-, hmain⟩ := Machine.exec_countP_le
    (fun u => (Threads.machine p rpi config).Reachable (.start s₀) u ∧ u.system.elapsed + 5 < 2 ^ 32)
    (fun a => ∀ elapsed, a = .wake elapsed → elapsed + 5 < 2 ^ 32)
    (fun a : SmallAction => decide (a.thread = .main))
    (fun u => Threads.mainLeft (cc.addChannels config.activePins).totalChannels
      (u.system.wakesLeft config.duration.toNat) u)
    (fun a u v ha hu hs =>
      have hstep := timed_step hclock hduration hfits hstart hu.1 hu.2 ha hs
      ⟨⟨hu.1.step hs, hstep.1⟩, hstep.2.2⟩) actions hok h0 hy
  rw [← hmainLeft]
  rw [show (Threads.start s₀).system = s₀ from rfl] at hwakes hmain
  rw [hleft] at hwakes
  exact ⟨Nat.le_of_add_right_le hwakes, Nat.le_of_add_right_le hmain⟩

/-- A run of one second on one channel: no step of the bound is missing. -/
theorem timed_run_bounded_one :
    ∃ s₀ y, start (RPiInterfaceReal 7) { activePins := [11], duration := 1 }
        (.new (RPiInterfaceReal 7)) = .ok (some s₀) ∧
      (Threads.machine .saturating (RPiInterfaceReal 7) { activePins := [11], duration := 1 }).exec
        (SmallAction.oneSecond ++ SmallAction.shutdown) (.start s₀) = some (.ok y) ∧
      (SmallAction.oneSecond ++ SmallAction.shutdown).countP (fun a => a.thread = .main) ≤ 23 ∧
      (SmallAction.oneSecond ++ SmallAction.shutdown).countP (fun a => a.thread = .main) = 23 := by
  obtain ⟨s₀, y, hstart, hexec, -⟩ := threads_of_schedule .saturating (RPiInterfaceReal 7)
    { activePins := [11], duration := 1 } (.new (RPiInterfaceReal 7))
    (SmallAction.oneSecond ++ SmallAction.shutdown) (fun x => x.system.main) .finished
    (by decide +kernel)
  have hround : ∀ elapsed, .wake elapsed ∈ SmallAction.oneSecond ++ SmallAction.shutdown →
      elapsed + 5 < 2 ^ 32 := by
    intro elapsed hmem
    simp [SmallAction.oneSecond, SmallAction.shutdown, SmallAction.report] at hmem
    rw [hmem]
    decide
  obtain ⟨-, hmain⟩ := timed_run_bounded .saturating (RPiInterfaceReal 7)
    { activePins := [11], duration := 1 } (.new (RPiInterfaceReal 7)) 7 rfl (by decide) (by decide) s₀
    hstart _ hround y hexec
  exact ⟨s₀, y, hstart, hexec, hmain, by decide⟩

/-- A reading of the clock at which any time is up. -/
theorem exists_timeUp (config : PulseCounterConfiguration) (hduration : config.duration > 0)
    (reading : UInt32) (elapsed : Nat) : ∃ later, elapsed + 1000 ≤ later ∧
      (LoopState.new (RPiInterfaceReal.millis reading 0)).timeUp config
        (RPiInterfaceReal.millis reading later) = true := by
  refine ⟨((elapsed + 1005) / 2 ^ 32 + 1) * 2 ^ 32 + (2 ^ 32 - 6), by omega, ?_⟩
  rw [timeUp_iff hduration]
  omega

/-- What is left to do until the end of a run whose time is up when the main thread wakes. -/
def Threads.endLeft (n : Nat) (x : Threads) : Nat :=
  x.mainLeft n (if x.system.loop.process then 1 else 0) + x.pollLeft n

/-- A step of the polling thread towards the end: it has been told to stop, or it is at work on a word. -/
theorem exists_endLeft_lt_poller (hn : cc.totalChannels ≠ 0) (hrange : cc.InRange)
    (h : Threads.Follows p rpi config cc x t) (hcan : Threads.CanStep p rpi config .poller x)
    (hstopped : x.system.runner.m_keepThreadRunning = false ∨
      ∃ word i changesDetected, x.process = .inLoop word i changesDetected) :
    ∃ a y, SmallSteps p rpi config x a y ∧
      y.endLeft cc.totalChannels < x.endLeft cc.totalChannels := by
  obtain ⟨a, y, hthread, hs⟩ := hcan
  obtain ⟨z, -, hsteps⟩ := small_step_spec hn hrange h hs
  obtain ⟨-, -, hloop, -⟩ := poller_small_steps hsteps hthread
  refine ⟨a, z, hsteps, ?_⟩
  unfold Threads.endLeft
  rw [hloop, Threads.mainLeft_poller hsteps hthread]
  exact Nat.add_lt_add_left (Threads.pollLeft_poller h hsteps hthread hstopped) _

/-- The main thread wakes up when the time is up. -/
theorem exists_endLeft_lt_wake {reading : UInt32} (hclock : rpi.millis = RPiInterfaceReal.millis reading)
    (hduration : config.duration > 0) (h : Threads.Follows p rpi config cc x t)
    (hmain : x.system.main = .looping) (hprocess : x.system.loop.process = true) :
    ∃ a y, SmallSteps p rpi config x a y ∧
      y.endLeft cc.totalChannels < x.endLeft cc.totalChannels := by
  obtain ⟨later, hgap, hup⟩ := exists_timeUp config hduration reading x.system.elapsed
  have hstarted : x.system.loop.start = rpi.millis 0 := by
    have hnext : x.system.nextReport = none := by
      unfold System.nextReport
      simp only [hmain, hprocess, if_true]
    have ht := h.system_eq (Threads.settled_of_nextReport hnext)
    have hstart := h.inv.started
    rw [ht] at hstart
    exact hstart
  have hdown : (x.system.woken config (rpi.millis later) later).loop.process = false := by
    have hup' : x.system.loop.timeUp config (rpi.millis later) = true := by
      unfold LoopState.timeUp
      rw [hstarted, hclock]
      exact hup
    change (x.system.loop.wake config (rpi.millis later)).process = false
    rw [LoopState.wake_eq, hup']
    rfl
  refine ⟨_, _, .wake later hmain hprocess hgap, ?_⟩
  unfold Threads.endLeft
  simp only [hdown, hprocess, if_true]
  exact Nat.add_lt_add_right (Threads.mainLeft_wake h hmain hprocess _ later) _

/-- Any other step of the main thread. -/
theorem exists_endLeft_lt_main (hn : cc.totalChannels ≠ 0) (hrange : cc.InRange)
    (h : Threads.Follows p rpi config cc x t) (hcan : Threads.CanStep p rpi config .main x)
    (hawake : ¬(x.system.main = .looping ∧ x.system.loop.process = true)) :
    ∃ a y, SmallSteps p rpi config x a y ∧
      y.endLeft cc.totalChannels < x.endLeft cc.totalChannels := by
  obtain ⟨a, y, hthread, hs⟩ := hcan
  obtain ⟨z, -, hsteps⟩ := small_step_spec hn hrange h hs
  have hwakes : a.wakes = false := by
    cases hsteps with
    | wake elapsed hpc hup => exact absurd ⟨hpc, hup⟩ hawake
    | _ => rfl
  refine ⟨a, z, hsteps, ?_⟩
  unfold Threads.endLeft
  rw [(clock_small_steps hsteps hwakes).1, Threads.pollLeft_main hsteps hthread]
  refine Nat.add_lt_add_right (Threads.mainLeft_main h hsteps hthread fun elapsed ha => ?_) _
  rw [ha] at hwakes
  cases hwakes

/-- A step towards the end of a timed run: of the main thread, unless that waits for the other one. -/
theorem exists_endLeft_lt {reading : UInt32} (hclock : rpi.millis = RPiInterfaceReal.millis reading)
    (hduration : config.duration > 0) (hn : cc.totalChannels ≠ 0) (hrange : cc.InRange)
    (h : Threads.Follows p rpi config cc x t) (ho : InOrder rpi config x.system)
    (hmain : x.system.main ≠ .finished) :
    ∃ a y, SmallSteps p rpi config x a y ∧
      y.endLeft cc.totalChannels < x.endLeft cc.totalChannels := by
  have hcall := h.call
  have hprocess := h.process
  by_cases hcan : Threads.CanStep p rpi config .main x
  · by_cases hsleeps : x.system.main = .looping ∧ x.system.loop.process = true
    · exact exists_endLeft_lt_wake hclock hduration h hsleeps.1 hsleeps.2
    · exact exists_endLeft_lt_main hn hrange h hcan hsleeps
  · by_cases hcleared : x.call = .cleared
    · -- the polling thread holds the mutex
      rw [hcleared] at hcall
      cases howner : x.m_accumulate_mutex with
      | none =>
        obtain ⟨call, hnext⟩ := Option.isSome_iff_exists.mp hcall.2.1
        exact absurd (.of_small (.lockGetResult hcleared howner)) hcan
      | some thread =>
        cases thread with
        | main => exact absurd howner hcall.1
        | poller =>
          refine exists_endLeft_lt_poller hn hrange h (h.holder hrange howner) (.inr ?_)
          cases hpc : x.process with
          | returned =>
            rw [hpc] at hprocess
            exact absurd howner hprocess.1
          | called word =>
            rw [hpc] at hprocess
            exact absurd howner hprocess.1
          | inLoop word i changesDetected => exact ⟨word, i, changesDetected, rfl⟩
    · -- the main thread is in `join`
      have hwaits : x.system.main = .joining ∧ x.system.poller ≠ .exited := by
        by_contra hnot
        refine hcan ((h.main_iff hn hrange).mpr ⟨hmain, fun hjoining => ?_, fun h => absurd h hcleared⟩)
        by_contra hexited
        exact hnot ⟨hjoining, hexited⟩
      have hreturned := h.returned (Threads.Stopped.nextReport (.inl hwaits.1))
      rw [hreturned] at hcall
      refine exists_endLeft_lt_poller hn hrange h ((h.poller_iff hn hrange).mpr ⟨hwaits.2, ?_⟩)
        (.inl (ho.keep.mpr (.inl hwaits.1)))
      rintro ⟨word, hword⟩
      rw [hword] at hprocess
      cases howner : x.m_accumulate_mutex with
      | none => rfl
      | some thread =>
        cases thread with
        | main => exact absurd howner hcall
        | poller => exact absurd howner hprocess.1

/-- **When a run can end**, with the 32-bit clock of the board. The polling thread is told to stop in timed
runs only, when the time was up at the last clock reading; so an unlimited run goes on for ever. A timed run
can end, from whatever state it has got to. -/
theorem run_can_end_iff (p : Platform) (rpi : RPiInterface) (config : PulseCounterConfiguration)
    (cc : ConfiguredChannels) (reading : UInt32)
    (hclock : rpi.millis = RPiInterfaceReal.millis reading) (s₀ : System)
    (hstart : start rpi config cc = .ok (some s₀)) :
    (∀ x, (Threads.machine p rpi config).Reachable (.start s₀) x →
      x.system.runner.m_keepThreadRunning = false → config.duration > 0 ∧
        1000 * config.duration.toNat % 2 ^ 32 ≤ (x.system.elapsed + 5) % 2 ^ 32) ∧
    ∀ x, (Threads.machine p rpi config).Reachable (.start s₀) x →
      ((∃ y, (Threads.machine p rpi config).Reachable x y ∧ y.system.main = .finished) ↔
        config.duration > 0) := by
  obtain ⟨-, hn, hrange⟩ := channels_of_start hstart
  have hdue : ∀ x, (Threads.machine p rpi config).Reachable (.start s₀) x →
      x.system.runner.m_keepThreadRunning = false → config.duration > 0 ∧
        1000 * config.duration.toNat % 2 ^ 32 ≤ (x.system.elapsed + 5) % 2 ^ 32 := by
    intro x hx hkeep
    have h := inOrder_of_reachable hstart hx
    have hprocess := h.process (.inr (.inr (h.keep.mp hkeep)))
    have helapsed : x.system.elapsed ≠ 0 := by
      intro hzero
      rw [h.begun hzero] at hprocess
      cases hprocess
    have hup := h.due helapsed
    rw [hprocess, Eq.comm, Bool.not_eq_false', hclock] at hup
    have hduration : config.duration > 0 := by
      unfold LoopState.timeUp at hup
      rw [Bool.and_eq_true, decide_eq_true_iff] at hup
      exact hup.1
    exact ⟨hduration, (timeUp_iff hduration reading _).mp hup⟩
  refine ⟨hdue, fun x hx => ⟨?_, fun hduration => ?_⟩⟩
  · rintro ⟨y, hy, hmain⟩
    have hy' := hx.trans hy
    exact (hdue y hy' ((inOrder_of_reachable hstart hy').keep.mpr (.inr hmain))).1
  · refine Machine.Reachable.of_progress
      (fun u => (Threads.machine p rpi config).Reachable (.start s₀) u)
      (fun u => u.system.main = .finished)
      (Threads.endLeft (cc.addChannels config.activePins).totalChannels) (fun u hu hgoal => ?_) x hx
    obtain ⟨⟨t, -, h⟩, -⟩ := follows_of_reachable hstart hu
    obtain ⟨a, v, hsteps, hlt⟩ := exists_endLeft_lt hclock hduration hn hrange h
      (inOrder_of_reachable hstart hu) hgoal
    exact ⟨a, v, hsteps.step_eq, hu.step hsteps.step_eq, hlt⟩

/-- A run of one second can end, an unlimited one cannot. -/
theorem run_can_end_iff_one :
    ∃ s₀ s₁ y, start (RPiInterfaceReal 7) { activePins := [11], duration := 1 }
        (.new (RPiInterfaceReal 7)) = .ok (some s₀) ∧
      (Threads.machine .saturating (RPiInterfaceReal 7) { activePins := [11], duration := 1 }).Reachable
        (.start s₀) y ∧ y.system.main = .finished ∧
      start (RPiInterfaceReal 7) { activePins := [11] } (.new (RPiInterfaceReal 7)) = .ok (some s₁) ∧
      ¬∃ z, (Threads.machine .saturating (RPiInterfaceReal 7) { activePins := [11] }).Reachable
        (.start s₁) z ∧ z.system.main = .finished := by
  obtain ⟨s₀, -, hstart, -, -⟩ := threads_of_schedule .saturating (RPiInterfaceReal 7)
    { activePins := [11], duration := 1 } (.new (RPiInterfaceReal 7)) [] (fun x => x.system.main)
    .looping (by decide +kernel)
  obtain ⟨s₁, -, hstart', -, -⟩ := threads_of_schedule .saturating (RPiInterfaceReal 7)
    { activePins := [11] } (.new (RPiInterfaceReal 7)) [] (fun x => x.system.main) .looping
    (by decide +kernel)
  obtain ⟨y, hy, hmain⟩ := ((run_can_end_iff .saturating (RPiInterfaceReal 7)
    { activePins := [11], duration := 1 } _ 7 rfl s₀ hstart).2 _ (.refl _ _)).mpr (by decide)
  have hunlimited := (run_can_end_iff .saturating (RPiInterfaceReal 7) { activePins := [11] } _ 7 rfl s₁
    hstart').2 _ (.refl _ _)
  exact ⟨s₀, s₁, y, hstart, hy, hmain, hstart', fun hend => absurd (hunlimited.mp hend) (by decide)⟩

end Timed

end PulseCounter.PulseCounterMain
