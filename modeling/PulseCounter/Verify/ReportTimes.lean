import PulseCounter.Verify.ReportHistory

/-!
# When reports are made

The main thread decides at each reading of the clock whether a report is due, by the time since the last
one. So which reports a run makes, with which durations, is a function of the times at which it reads the
clock: two calls for each report that is due, and two more after the loop (`reports_timeline`). With the
clock of the board, a report is due every time unless the main thread has slept for more than 49 days.
-/

namespace PulseCounter.PulseCounterMain

open DecodeGpioRegsAndAccumulate

variable {p : Platform} {rpi : RPiInterface} {config : PulseCounterConfiguration}
  {cc : ConfiguredChannels} {s s₀ t : System} {x y : Threads}

/-- A call for a report without its vector, and when it was made. -/
inductive Heading where
  | channels (elapsed : Nat)
  | dumpDataToFile (elapsed : Nat) (duration : UInt32)
  | summary (elapsed : Nat) (duration : UInt32)
  deriving DecidableEq, Repr

def Emission.heading (e : Emission) : Heading :=
  match e.report with
  | .channels _ => .channels e.elapsed
  | .dumpDataToFile _ duration => .dumpDataToFile e.elapsed duration
  | .summary _ duration => .summary e.elapsed duration

/-- The times at which the main thread reads the clock after a sleep. -/
def wakeTimes (actions : List SmallAction) : List Nat :=
  actions.filterMap fun a =>
    match a with
    | .wake elapsed => some elapsed
    | _ => none

/-- A report is due at `now` when the last one was made at `last`. -/
def dueAt (rpi : RPiInterface) (last now : Nat) : Bool :=
  decide (rpi.millis now - rpi.millis last + TIMING_TOLERANCE ≥ 1000)

/-- The times at which a report is due, when the last one was made at `last`. -/
def dueTimes (rpi : RPiInterface) (last : Nat) : List Nat → List Nat
  | [] => []
  | now :: times => if dueAt rpi last now then now :: dueTimes rpi now times else dueTimes rpi last times

/-- The two calls for each report that is due. -/
def timeline (rpi : RPiInterface) (times : List Nat) : List Heading :=
  times.flatMap fun now => [.channels now, .dumpDataToFile now (rpi.millis now - rpi.millis 0)]

/-- The two calls of the final report. -/
def finalCalls (rpi : RPiInterface) (now : Nat) : List Heading :=
  [.channels now, .summary now (rpi.millis now - rpi.millis 0)]

theorem dueTimes_concat (last now : Nat) (times : List Nat) :
    dueTimes rpi last (times ++ [now]) = dueTimes rpi last times ++
      if dueAt rpi ((dueTimes rpi last times).getLastD last) now then [now] else [] := by
  induction times generalizing last with
  | nil => rfl
  | cons first times ih =>
    rw [List.cons_append, dueTimes, dueTimes]
    by_cases hdue : dueAt rpi last first = true
    · rw [if_pos hdue, if_pos hdue, ih, List.cons_append, List.getLastD_cons]
    · rw [if_neg hdue, if_neg hdue, ih]

theorem timeline_concat (times : List Nat) (now : Nat) : timeline rpi (times ++ [now]) =
    timeline rpi times ++ [.channels now, .dumpDataToFile now (rpi.millis now - rpi.millis 0)] := by
  unfold timeline
  rw [List.flatMap_append, List.flatMap_singleton]

/-! ## The reports by where the main thread stands -/

/-- The calls made so far, after the reports at the times `done`. -/
def MadeAt (rpi : RPiInterface) (due done : List Nat) (now : Nat) (made : List Heading) :
    MainPc → Prop
  | .looping => due = done ∧ made = timeline rpi done
  | .reporting => due = done ++ [now] ∧ made = timeline rpi done
  | .dumping => due = done ++ [now] ∧ made = timeline rpi done ++ [.channels now]
  | .summing => due = done ∧ made = timeline rpi done ++ [.channels now]
  | .stopping | .joining | .finished => due = done ∧ made = timeline rpi done ++ finalCalls rpi now

/-- The calls made so far, and what the loop remembers of its clock readings. -/
structure Timely (rpi : RPiInterface) (times done : List Nat) (s : System) : Prop where
  spaced : (0 :: times).IsChain fun now later => now + 1000 ≤ later
  elapsed : s.elapsed = times.getLastD 0
  started : s.loop.start = rpi.millis 0
  current : s.loop.current = rpi.millis s.elapsed
  previous : s.loop.previous_display = rpi.millis (done.getLastD 0)
  made : MadeAt rpi (dueTimes rpi 0 times) done s.elapsed (s.emitted.map Emission.heading) s.main

namespace Timely

variable {times done : List Nat}

theorem of_start (h : start rpi config cc = .ok (some s)) : Timely rpi [] [] s := by
  obtain ⟨runner, -, rfl⟩ := eq_of_start h
  exact ⟨.singleton 0, rfl, rfl, rfl, rfl, rfl, rfl⟩

theorem frame (h : Timely rpi times done s) (helapsed : t.elapsed = s.elapsed) (hloop : t.loop = s.loop)
    (hmain : t.main = s.main) (hemitted : t.emitted = s.emitted) : Timely rpi times done t := by
  refine ⟨h.spaced, helapsed.trans h.elapsed, ?_, ?_, ?_, ?_⟩
  · rw [hloop]
    exact h.started
  · rw [hloop, helapsed]
    exact h.current
  · rw [hloop]
    exact h.previous
  · rw [helapsed, hemitted, hmain]
    exact h.made

/-- The clock is read. -/
theorem woken (h : Timely rpi times done s) (hmain : s.main = .looping) {now : Nat}
    (hgap : s.elapsed + 1000 ≤ now) :
    Timely rpi (times ++ [now]) done (s.woken config (rpi.millis now) now) := by
  have hmade := h.made
  rw [hmain] at hmade
  obtain ⟨hdue, hmade⟩ := hmade
  have hdisplay : (s.loop.wake config (rpi.millis now)).displayDue = dueAt rpi (done.getLastD 0) now := by
    unfold LoopState.displayDue dueAt
    rw [LoopState.wake_eq, ← h.previous]
  refine ⟨?_, ?_, ?_, ?_, ?_, ?_⟩
  · rw [← List.cons_append, List.isChain_append]
    refine ⟨h.spaced, .singleton now, fun last hlast later hlater => ?_⟩
    rw [List.getLast?_cons, Option.mem_some_iff, ← List.getLastD_eq_getLast?, ← h.elapsed] at hlast
    rw [List.head?_cons, Option.mem_some_iff] at hlater
    rw [← hlast, ← hlater]
    exact hgap
  · rw [List.getLastD_concat]
    rfl
  · change (s.loop.wake config (rpi.millis now)).start = _
    rw [LoopState.wake_eq]
    exact h.started
  · change (s.loop.wake config (rpi.millis now)).current = _
    rw [LoopState.wake_eq]
    rfl
  · change (s.loop.wake config (rpi.millis now)).previous_display = _
    rw [LoopState.wake_eq]
    exact h.previous
  · unfold System.woken
    simp only [hdisplay, dueTimes_concat, hdue]
    cases dueAt rpi (done.getLastD 0) now with
    | true => exact ⟨rfl, hmade⟩
    | false => exact ⟨List.append_nil _, hmade⟩

/-- A call for a report has been made. -/
theorem displayed (h : Timely rpi times done s) {call : List UInt32 → Report}
    (hnext : s.nextReport = some call) (v : List UInt32) (text : List Char) (opened : Bool)
    (seen : Nat) : ∃ done, Timely rpi times done (System.afterReport { s with
      emitted := s.emitted ++ [{
        report := call v
        text := text
        opened := opened
        point := s.point
        elapsed := s.elapsed
        seen := seen }] }) := by
  have hmade := h.made
  have hduration : s.loop.duration = rpi.millis s.elapsed - rpi.millis 0 := by
    unfold LoopState.duration
    rw [h.current, h.started]
  unfold System.nextReport at hnext
  cases hmain : s.main with
  | looping =>
    rw [hmain] at hmade
    simp only [hmain] at hnext
    split at hnext
    · cases hnext
    · injection hnext with hnext
      subst hnext
      refine ⟨done, h.spaced, h.elapsed, h.started, h.current, h.previous, hmade.1, ?_⟩
      change List.map _ (_ ++ _) = _
      rw [List.map_append, hmade.2]
      rfl
  | reporting =>
    rw [hmain] at hmade
    simp only [hmain] at hnext
    injection hnext with hnext
    subst hnext
    refine ⟨done, h.spaced, h.elapsed, h.started, h.current, h.previous, hmade.1, ?_⟩
    change List.map _ (_ ++ _) = _
    rw [List.map_append, hmade.2]
    rfl
  | dumping =>
    rw [hmain] at hmade
    simp only [hmain] at hnext
    injection hnext with hnext
    subst hnext
    refine ⟨done ++ [s.elapsed], h.spaced, h.elapsed, h.started, h.current, ?_, hmade.1, ?_⟩
    · rw [List.getLastD_concat]
      exact h.current
    · change List.map _ (_ ++ _) = _
      rw [List.map_append, hmade.2, timeline_concat, List.append_assoc]
      change _ ++ [Heading.channels s.elapsed, .dumpDataToFile s.elapsed s.loop.duration] = _
      rw [hduration]
  | summing =>
    rw [hmain] at hmade
    simp only [hmain] at hnext
    injection hnext with hnext
    subst hnext
    refine ⟨done, h.spaced, h.elapsed, h.started, h.current, h.previous, hmade.1, ?_⟩
    change List.map _ (_ ++ _) = _
    rw [List.map_append, hmade.2, List.append_assoc]
    change _ ++ [Heading.channels s.elapsed, .summary s.elapsed s.loop.duration] = _
    rw [hduration]
    rfl
  | stopping | joining | finished => simp [hmain] at hnext

/-- The schedule goes on by one small step. -/
theorem steps {actions : List SmallAction} (h : Timely rpi (wakeTimes actions) done x.system)
    {a : SmallAction} (hs : SmallSteps p rpi config x a y) :
    ∃ done, Timely rpi (wakeTimes (actions ++ [a])) done y.system := by
  have htimes : wakeTimes (actions ++ [a]) = wakeTimes actions ++ wakeTimes [a] := List.filterMap_append
  rw [htimes]
  have hmade := h.made
  cases hs with
  | readFirst | testRunning | skip | callProcess | lockProcess | processChannel | unlockProcess
  | clearLocal | lockGetResult | copyChannel | unlockGetResult =>
    rw [show wakeTimes [_] = [] from rfl, List.append_nil]
    exact ⟨done, h.frame rfl rfl rfl rfl⟩
  | wake elapsed hmain hprocess hgap => exact ⟨done, h.woken hmain hgap⟩
  | display opened seen call text hpc hnext htext =>
    rw [show wakeTimes [_] = [] from rfl, List.append_nil]
    exact h.displayed hnext _ text _ seen
  | stop hmain =>
    rw [hmain] at hmade
    rw [show wakeTimes [_] = [] from rfl, List.append_nil]
    exact ⟨done, h.spaced, h.elapsed, h.started, h.current, h.previous, hmade⟩
  | join hmain hexited =>
    rw [hmain] at hmade
    rw [show wakeTimes [_] = [] from rfl, List.append_nil]
    exact ⟨done, h.spaced, h.elapsed, h.started, h.current, h.previous, hmade⟩

end Timely

/-! ## The calls of a run -/

/-- The calls of a run that ends after these clock readings. -/
def callsOf (rpi : RPiInterface) (times : List Nat) : List Heading :=
  timeline rpi (dueTimes rpi 0 times) ++ finalCalls rpi (times.getLastD 0)

theorem MadeAt.called {due done : List Nat} {now : Nat} {made : List Heading} {pc : MainPc}
    (h : MadeAt rpi due done now made pc) : made <+: timeline rpi due ++ finalCalls rpi now := by
  cases pc with
  | looping =>
    obtain ⟨rfl, rfl⟩ := h
    exact List.prefix_append _ _
  | reporting =>
    obtain ⟨rfl, rfl⟩ := h
    rw [timeline_concat, List.append_assoc]
    exact List.prefix_append _ _
  | dumping =>
    obtain ⟨rfl, rfl⟩ := h
    rw [timeline_concat, List.append_assoc]
    exact List.prefix_append_right_inj _ |>.mpr (List.prefix_append [Heading.channels now] _)
  | summing =>
    obtain ⟨rfl, rfl⟩ := h
    exact List.prefix_append_right_inj _ |>.mpr (List.prefix_append [Heading.channels now] _)
  | stopping | joining | finished =>
    obtain ⟨rfl, rfl⟩ := h
    exact List.prefix_refl _

/-- With the clock of the board, a report is due unless almost `2 ^ 32` milliseconds have gone by. -/
theorem dueTimes_eq {reading : UInt32} (hclock : rpi.millis = RPiInterfaceReal.millis reading)
    {last : Nat} {times : List Nat}
    (hgaps : (last :: times).IsChain fun now later => now + 1000 ≤ later ∧ later + 5 < now + 2 ^ 32) :
    dueTimes rpi last times = times := by
  induction times generalizing last with
  | nil => rfl
  | cons now times ih =>
    rw [List.isChain_cons_cons] at hgaps
    obtain ⟨⟨hgap, hround⟩, hgaps⟩ := hgaps
    have hdue : dueAt rpi last now = true := by
      have hdiff : RPiInterfaceReal.millis reading now - RPiInterfaceReal.millis reading last =
          UInt32.ofNat (now - last) := by
        have hsum : RPiInterfaceReal.millis reading now =
            RPiInterfaceReal.millis reading last + UInt32.ofNat (now - last) := by
          unfold RPiInterfaceReal.millis
          rw [← UInt32.ofNat_add]
          congr 1
          omega
        rw [hsum, UInt32.add_comm, UInt32.add_sub_cancel]
      unfold dueAt
      rw [hclock, hdiff, decide_eq_true_iff, ge_iff_le, UInt32.le_iff_toNat_le, UInt32.toNat_add,
        UInt32.toNat_ofNat']
      have htolerance : TIMING_TOLERANCE.toNat = 5 := rfl
      have hsecond : (1000 : UInt32).toNat = 1000 := rfl
      omega
    rw [dueTimes, if_pos hdue, ih hgaps]

/-- **Which reports a run makes.** Whatever the interleaving, the calls for reports, with their times and
durations, are those that the times at which the main thread read the clock call for: as many of them as
have been made, and all of them when the run has ended. With the clock of the board, and no sleep of almost
`2 ^ 32` milliseconds, there is a report for every reading. -/
theorem reports_timeline (p : Platform) (rpi : RPiInterface) (config : PulseCounterConfiguration)
    (cc : ConfiguredChannels) (s₀ : System) (hstart : start rpi config cc = .ok (some s₀))
    (actions : List SmallAction) (y : Threads)
    (hy : (Threads.machine p rpi config).exec actions (.start s₀) = some (.ok y)) :
    y.system.emitted.map Emission.heading <+: callsOf rpi (wakeTimes actions) ∧
      (y.system.main = .finished →
        y.system.emitted.map Emission.heading = callsOf rpi (wakeTimes actions)) ∧
      ∀ reading, rpi.millis = RPiInterfaceReal.millis reading →
        ((0 :: wakeTimes actions).IsChain fun now later => later + 5 < now + 2 ^ 32) →
        callsOf rpi (wakeTimes actions) =
          timeline rpi (wakeTimes actions) ++ finalCalls rpi ((wakeTimes actions).getLastD 0) := by
  obtain ⟨-, done, htimely⟩ : (Threads.machine p rpi config).Reachable (.start s₀) y ∧
      ∃ done, Timely rpi (wakeTimes actions) done y.system := by
    refine Machine.exec_invariant (fun as u => (Threads.machine p rpi config).Reachable (.start s₀) u ∧
      ∃ done, Timely rpi (wakeTimes as) done u.system) ?_ ⟨.refl _ _, [], .of_start hstart⟩ hy
    rintro as a u v ⟨hu, done, htimely⟩ hs
    obtain ⟨t, h, hsteps⟩ := small_steps_of_reachable hstart hu hs
    exact ⟨hu.step hs, htimely.steps hsteps⟩
  have hmade := htimely.made
  rw [htimely.elapsed] at hmade
  refine ⟨hmade.called, fun hmain => ?_, fun reading hclock hround => ?_⟩
  · rw [hmain] at hmade
    obtain ⟨hdue, hmade⟩ := hmade
    rw [hmade, callsOf, hdue]
  · rw [callsOf, dueTimes_eq hclock]
    rw [List.isChain_iff_getElem] at hround ⊢
    exact fun i hi => ⟨List.isChain_iff_getElem.mp htimely.spaced i hi, hround i hi⟩

/-- A run of two seconds, with the second one late. -/
theorem reports_timeline_two :
    ∃ (s₀ : System) (y : Threads),
      start (RPiInterfaceReal 7) { activePins := [11], duration := 2 } (.new (RPiInterfaceReal 7)) =
        .ok (some s₀) ∧
      y.system.main = .finished ∧ y.system.emitted.map Emission.heading = [
        .channels 1000, .dumpDataToFile 1000 1000, .channels 2300, .dumpDataToFile 2300 2300,
        .channels 2300, .summary 2300 2300] := by
  obtain ⟨s₀, y, hstart, hexec, hmain⟩ := threads_of_schedule .saturating (RPiInterfaceReal 7)
    { activePins := [11], duration := 2 } (.new (RPiInterfaceReal 7))
    (.wake 1000 :: (SmallAction.report ++ SmallAction.report ++ [.wake 2300] ++ SmallAction.report ++
      SmallAction.report ++ SmallAction.report ++ SmallAction.report ++
      [.stop, .readFirst 0, .testRunning, .join]))
    (fun x => x.system.main) .finished (by decide +kernel)
  refine ⟨s₀, y, hstart, hmain, ?_⟩
  rw [(reports_timeline _ _ _ _ s₀ hstart _ y hexec).2.1 hmain]
  decide

end PulseCounter.PulseCounterMain
