import PulseCounter.Verify.Timing

/-!
# The emulated clock

The emulated clock gives the local time of day at whole seconds. Within a day it goes on like the
elapsed time, to a second; at midnight it starts again from zero, and the elapsed time computed from it
wraps to a value of almost `2 ^ 32` until the time of day of the start has come round. So the elapsed
time is right on the day of the start and only there, and a timed run ends too early when one of its
iterations finds an earlier time of day than that of the start (`emulated_elapsed_iff`).
-/

namespace PulseCounter

namespace RPiInterfaceEmulated

/-- The local date, counted from the midnight before the start. -/
def localDay (now : Nat) : Nat := now / 86400000

/-- The whole seconds of the local time of day. -/
def secondOfDay (now : Nat) : Nat := now / 1000 % 86400

theorem toNat_millis (localStart elapsed : Nat) :
    (millis localStart elapsed).toNat = secondOfDay (localStart + elapsed) * 1000 := by
  have hlt : secondOfDay (localStart + elapsed) < 86400 := Nat.mod_lt _ (by decide)
  unfold millis
  rw [UInt32.toNat_ofNat']
  apply Nat.mod_eq_of_lt
  unfold secondOfDay at hlt
  omega

/-- The difference of two readings: the time between them on the clock face, or what is left of
`2 ^ 32` when the clock face has gone back. -/
theorem toNat_millis_sub (localStart elapsed : Nat) :
    (millis localStart elapsed - millis localStart 0).toNat =
      if secondOfDay localStart ≤ secondOfDay (localStart + elapsed) then
        (secondOfDay (localStart + elapsed) - secondOfDay localStart) * 1000
      else 2 ^ 32 - (secondOfDay localStart - secondOfDay (localStart + elapsed)) * 1000 := by
  have hstart : secondOfDay localStart < 86400 := Nat.mod_lt _ (by decide)
  have hnow : secondOfDay (localStart + elapsed) < 86400 := Nat.mod_lt _ (by decide)
  rw [UInt32.toNat_sub, toNat_millis, toNat_millis, Nat.add_zero]
  split
  · omega
  · omega

/-- **The elapsed time on the clock** is right to a second exactly as long as the date is that of the
start. -/
theorem millis_sub_near_iff (localStart elapsed : Nat) :
    (elapsed < (millis localStart elapsed - millis localStart 0).toNat + 1000 ∧
        (millis localStart elapsed - millis localStart 0).toNat < elapsed + 1000) ↔
      localDay (localStart + elapsed) = localDay localStart := by
  rw [toNat_millis_sub]
  unfold secondOfDay localDay
  split
  · omega
  · omega

end RPiInterfaceEmulated

namespace PulseCounterMain

open RPiInterfaceEmulated

variable {config : PulseCounterConfiguration}

namespace LoopState

@[simp] theorem iterate_current (l : LoopState) (now : UInt32) :
    (l.iterate config now).current = now := by
  simp only [iterate, wake_eq]
  split <;> rfl

/-- The difference `current - start` after iteration `k`. -/
theorem after_duration (l : LoopState) (times : Nat → UInt32) (k : Nat) :
    (l.after config times (k + 1)).duration = times k - l.start := by
  unfold duration
  rw [after_start, after, iterate_current]

end LoopState

/-- What an iteration of a run on the emulated clock finds: the time is up when the time on the clock
face says so, and whenever the clock face has gone back. -/
theorem timeUp_millis_iff (hfits : 1000 * config.duration.toNat < 2 ^ 31) (localStart elapsed : Nat) :
    (LoopState.new (millis localStart 0)).timeUp config (millis localStart elapsed) = true ↔
      config.duration > 0 ∧ (secondOfDay localStart ≤ secondOfDay (localStart + elapsed) →
        1000 * config.duration.toNat ≤
          (secondOfDay (localStart + elapsed) - secondOfDay localStart) * 1000 + 5) := by
  have hstart : secondOfDay localStart < 86400 := Nat.mod_lt _ (by decide)
  have hnow : secondOfDay (localStart + elapsed) < 86400 := Nat.mod_lt _ (by decide)
  have hdiff := toNat_millis_sub localStart elapsed
  have hproduct : (config.duration * 1000).toNat = 1000 * config.duration.toNat := by
    have hthousand : (1000 : UInt32).toNat = 1000 := rfl
    rw [UInt32.toNat_mul, hthousand]
    omega
  have hsum : (millis localStart elapsed - millis localStart 0 + TIMING_TOLERANCE).toNat =
      (millis localStart elapsed - millis localStart 0).toNat + 5 := by
    have hfive : TIMING_TOLERANCE.toNat = 5 := rfl
    rw [UInt32.toNat_add, hfive]
    apply Nat.mod_eq_of_lt
    split at hdiff <;> omega
  unfold LoopState.timeUp LoopState.new
  rw [Bool.and_eq_true, decide_eq_true_iff, decide_eq_true_iff, ge_iff_le, UInt32.le_iff_toNat_le,
    hproduct, hsum, hdiff]
  refine and_congr_right fun _ => ?_
  split
  · next hle => exact ⟨fun h _ => h, fun h => h hle⟩
  · next hback => exact ⟨fun _ hle => absurd hle hback, fun _ => by omega⟩

/-- The clock face does not run ahead of the elapsed time by a second. -/
theorem secondOfDay_sub_lt (localStart elapsed : Nat) :
    (secondOfDay (localStart + elapsed) - secondOfDay localStart) * 1000 < elapsed + 1000 := by
  unfold secondOfDay
  omega

/-- Too early, the time is up only for an iteration that finds the clock face gone back. -/
theorem not_timeUp_millis_iff {localStart elapsed : Nat}
    (hfits : 1000 * config.duration.toNat < 2 ^ 31)
    (hearly : elapsed + 5 + 1000 < 1000 * config.duration.toNat) :
    ¬(LoopState.new (millis localStart 0)).timeUp config (millis localStart elapsed) = true ↔
      secondOfDay localStart ≤ secondOfDay (localStart + elapsed) := by
  have hduration : config.duration > 0 := by
    rw [gt_iff_lt, UInt32.lt_iff_toNat_lt]
    change 0 < _
    omega
  have hahead := secondOfDay_sub_lt localStart elapsed
  rw [timeUp_millis_iff hfits]
  constructor
  · intro hnot
    by_contra hback
    exact hnot ⟨hduration, fun hle => absurd hle hback⟩
  · rintro hforward ⟨-, hdue⟩
    have hdue := hdue hforward
    omega

/-- **A run on the emulated clock.** At every iteration the elapsed time is right to a second exactly
if the date is still that of the start. A run of a duration that fits ends at no iteration that is more
than a second and the tolerance early, exactly if none of those iterations finds a time of day before
that of the start. -/
theorem emulated_elapsed_iff (config : PulseCounterConfiguration) (localStart : Nat) (e : Nat → Nat)
    (hgap : ∀ k, e k + 1000 ≤ e (k + 1)) :
    let l := LoopState.new (millis localStart 0)
    let times := fun k => millis localStart (e k)
    (∀ k, (e k < (l.after config times (k + 1)).duration.toNat + 1000 ∧
        (l.after config times (k + 1)).duration.toNat < e k + 1000) ↔
      localDay (localStart + e k) = localDay localStart) ∧
    (1000 * config.duration.toNat < 2 ^ 31 →
      ((∀ k, l.ClearsFlag config times k → ¬e k + 5 + 1000 < 1000 * config.duration.toNat) ↔
        ∀ k, e k + 5 + 1000 < 1000 * config.duration.toNat →
          secondOfDay localStart ≤ secondOfDay (localStart + e k))) := by
  intro l times
  constructor
  · intro k
    rw [LoopState.after_duration]
    exact millis_sub_near_iff localStart (e k)
  · intro hfits
    have hmono : Monotone e := monotone_nat_of_le_succ fun k =>
      Nat.le_trans (Nat.le_add_right _ _) (hgap k)
    have hearly : Antitone fun k => e k + 5 + 1000 < 1000 * config.duration.toNat := by
      intro j k hjk hk
      have hle := hmono hjk
      omega
    simp only [LoopState.clearsFlag_iff config l times rfl]
    rw [Deadline.forall_isLeast_iff hearly]
    exact forall_congr' fun k => forall_congr' fun hk => not_timeUp_millis_iff hfits hk

/-- A run of an hour that starts at noon. -/
theorem emulated_elapsed_iff_noon :
    let l := LoopState.new (millis 43200000 0)
    let times := fun k => millis 43200000 (1000 * (k + 1))
    (1000 * (9 + 1) < (l.after { duration := 3600 } times (9 + 1)).duration.toNat + 1000 ∧
        (l.after { duration := 3600 } times (9 + 1)).duration.toNat < 1000 * (9 + 1) + 1000) ∧
      ∀ k, l.ClearsFlag { duration := 3600 } times k → ¬1000 * (k + 1) + 5 + 1000 < 3600000 := by
  intro l times
  obtain ⟨hnear, hnever⟩ := emulated_elapsed_iff { duration := 3600 } 43200000
    (fun k => 1000 * (k + 1)) (fun k => by omega)
  refine ⟨(hnear 9).mpr rfl, (hnever (by decide)).mpr fun k hearly => ?_⟩
  have hproduct : 1000 * (3600 : UInt32).toNat = 3600000 := rfl
  unfold secondOfDay
  simp only [hproduct] at hearly
  omega

/-- A run of ten seconds that starts a second before midnight ends after a second. -/
theorem emulated_elapsed_wraps :
    ¬∀ (config : PulseCounterConfiguration) (localStart : Nat) (e : Nat → Nat),
      (∀ k, e k + 1000 ≤ e (k + 1)) →
      let l := LoopState.new (millis localStart 0)
      let times := fun k => millis localStart (e k)
      (∀ k, e k < (l.after config times (k + 1)).duration.toNat + 1000 ∧
        (l.after config times (k + 1)).duration.toNat < e k + 1000) ∧
      (1000 * config.duration.toNat < 2 ^ 31 →
        ∀ k, l.ClearsFlag config times k → ¬e k + 5 + 1000 < 1000 * config.duration.toNat) := by
  intro h
  obtain ⟨-, hnever⟩ := h { duration := 10 } 86399000 (fun k => 1000 * (k + 1)) (fun k => by omega)
  exact hnever (by decide) 0 (by unfold LoopState.ClearsFlag; decide) (by decide)

end PulseCounterMain

end PulseCounter
