import PulseCounter.PulseCounterMain
import PulseCounter.Lib.Deadline

/-!
# When a timed run stops

An iteration compares two 32-bit words, the elapsed time with the tolerance and the duration in
milliseconds, each the remainder of the true number modulo `2 ^ 32`. The flag of the loop drops at the
first iteration where the words say so, which is the right one when the words compare like the numbers
there and, for a duration that does not fit a word, do not say so earlier (`stops_when_asked_iff`).
-/

namespace PulseCounter.PulseCounterMain

open RPiInterfaceReal

variable {config : PulseCounterConfiguration}

namespace LoopState

variable (l : LoopState) (now : UInt32)

@[simp] theorem iterate_start : (l.iterate config now).start = l.start := by
  simp only [iterate, wake_eq]
  split <;> rfl

@[simp] theorem iterate_process :
    (l.iterate config now).process = (!l.timeUp config now && l.process) := by
  simp only [iterate, wake_eq]
  split <;> rfl

variable (config) (times : Nat → UInt32)

theorem after_start (k : Nat) : (l.after config times k).start = l.start := by
  induction k with
  | zero => rfl
  | succ k ih => rw [after, iterate_start, ih]

/-- The flag is lowered by the first iteration that finds the time up. -/
theorem after_process (hl : l.process = true) (k : Nat) :
    (l.after config times k).process = Deadline.latch (fun j => l.timeUp config (times j)) k := by
  induction k with
  | zero => exact hl
  | succ k ih =>
    rw [after, iterate_process, ih, Deadline.latch]
    unfold timeUp
    rw [after_start]

/-- Iteration `k` clears the flag. -/
def ClearsFlag (k : Nat) : Prop :=
  (l.after config times k).process = true ∧ (l.after config times (k + 1)).process = false

theorem clearsFlag_iff (hl : l.process = true) (k : Nat) :
    l.ClearsFlag config times k ↔ IsLeast {j | l.timeUp config (times j) = true} k := by
  unfold ClearsFlag
  rw [after_process config l times hl, after_process config l times hl, Deadline.latch_drops_iff]

end LoopState

/-- The time is up for an iteration when the remainders say so. -/
theorem timeUp_iff (hduration : config.duration > 0) (s : UInt32) (elapsed : Nat) :
    (LoopState.new (millis s 0)).timeUp config (millis s elapsed) = true ↔
      1000 * config.duration.toNat % 2 ^ 32 ≤ (elapsed + 5) % 2 ^ 32 := by
  have hleft : (config.duration * 1000).toNat = 1000 * config.duration.toNat % 2 ^ 32 := by
    rw [UInt32.toNat_mul, Nat.mul_comm]
    rfl
  have hright : (millis s elapsed - millis s 0 + TIMING_TOLERANCE).toNat =
      (elapsed + 5) % 2 ^ 32 := by
    rw [millis_sub_millis, UInt32.toNat_add, UInt32.toNat_ofNat', Nat.mod_add_mod]
    rfl
  unfold LoopState.timeUp
  rw [decide_eq_true hduration, Bool.true_and, decide_eq_true_iff, ge_iff_le, UInt32.le_iff_toNat_le,
    hleft]
  exact hright ▸ Iff.rfl

/-- Iteration `k` clears the flag when it is the first for which the remainders say that the time is
up. -/
theorem clearsFlag_iff_isLeast (hduration : config.duration > 0) (s : UInt32) (e : Nat → Nat)
    (k : Nat) :
    (LoopState.new (millis s 0)).ClearsFlag config (fun j => millis s (e j)) k ↔
      IsLeast {j | 1000 * config.duration.toNat % 2 ^ 32 ≤ (e j + 5) % 2 ^ 32} k := by
  rw [LoopState.clearsFlag_iff config _ _ rfl]
  simp only [timeUp_iff hduration]

/-- The iteration that clears the flag is the one at which the time is up, when the remainders say so
there and, for a duration that does not fit, at no iteration before it. -/
theorem clearsFlag_iff_of_due (hduration : config.duration > 0) (s : UInt32) {e : Nat → Nat} {m : Nat}
    (hm : IsLeast {j | 1000 * config.duration.toNat ≤ e j + 5} m) :
    (∀ k, (LoopState.new (millis s 0)).ClearsFlag config (fun j => millis s (e j)) k ↔
      IsLeast {j | 1000 * config.duration.toNat ≤ e j + 5} k) ↔
    1000 * config.duration.toNat % 2 ^ 32 ≤ (e m + 5) % 2 ^ 32 ∧
      (2 ^ 32 ≤ 1000 * config.duration.toNat →
        ∀ j < m, (e j + 5) % 2 ^ 32 < 1000 * config.duration.toNat % 2 ^ 32) := by
  simp only [clearsFlag_iff_isLeast hduration]
  rw [Deadline.isLeast_iff_isLeast hm]
  simp only [Nat.not_le]
  refine and_congr_right fun _ => ⟨fun hbefore _ => hbefore, fun hbefore j hj => ?_⟩
  by_cases hfits : 2 ^ 32 ≤ 1000 * config.duration.toNat
  · exact hbefore hfits j hj
  · -- the numbers are their own remainders
    have hearly : e j + 5 < 1000 * config.duration.toNat :=
      Nat.lt_of_not_le fun hdue => absurd (hm.2 hdue) (Nat.not_le_of_lt hj)
    omega

/-- **A timed run stops when asked**, at the first iteration whose elapsed time is at most the
tolerance short of the duration, exactly when at that iteration the two numbers compare like their
remainders modulo `2 ^ 32` and, if the duration in milliseconds does not fit a word, the remainders
do not say at an earlier one that the time is up. -/
theorem stops_when_asked_iff (config : PulseCounterConfiguration) (hduration : config.duration > 0)
    (s : UInt32) (e : Nat → Nat) (hgap : ∀ k, e k + 1000 ≤ e (k + 1)) :
    (∀ k, (LoopState.new (millis s 0)).ClearsFlag config (fun j => millis s (e j)) k ↔
      IsLeast {j | 1000 * config.duration.toNat ≤ e j + 5} k) ↔
    ∀ k, IsLeast {j | 1000 * config.duration.toNat ≤ e j + 5} k →
      1000 * config.duration.toNat % 2 ^ 32 ≤ (e k + 5) % 2 ^ 32 ∧
        (2 ^ 32 ≤ 1000 * config.duration.toNat →
          ∀ j < k, (e j + 5) % 2 ^ 32 < 1000 * config.duration.toNat % 2 ^ 32) := by
  have hmono : StrictMono fun k => e k + 5 := by
    refine strictMono_nat_of_lt_succ fun k => ?_
    have hstep := hgap k
    omega
  obtain ⟨m, hm⟩ := Deadline.exists_isLeast hmono (1000 * config.duration.toNat)
  rw [clearsFlag_iff_of_due hduration s hm]
  constructor
  · intro h k hk
    rw [← hm.unique hk]
    exact h
  · intro h
    exact h m hm

/-- A duration of an hour, iterations a second apart. -/
theorem stops_when_asked_iff_hour :
    (LoopState.new (millis 7 0)).ClearsFlag { duration := 3600 }
      (fun j => millis 7 (1000 * (j + 1))) 3599 := by
  have hdue : IsLeast {j | 1000 * (3600 : UInt32).toNat ≤ 1000 * (j + 1) + 5} 3599 := by
    have hvalue : (3600 : UInt32).toNat = 3600 := rfl
    rw [hvalue, Deadline.isLeast_iff_forall_lt]
    refine ⟨by omega, fun j hj => ?_⟩
    omega
  refine ((stops_when_asked_iff { duration := 3600 } (by decide) 7 (fun j => 1000 * (j + 1))
    (fun k => by omega)).mpr (fun k hk => ?_) 3599).mpr hdue
  rw [← hdue.unique hk]
  exact ⟨by decide, fun hle => absurd hle (by decide)⟩

/-- The product wraps: a run of 4294968 seconds ends after its first second. -/
theorem stops_too_early :
    ¬∀ (config : PulseCounterConfiguration) (s : UInt32) (e : Nat → Nat), config.duration > 0 →
      (∀ k, e k + 1000 ≤ e (k + 1)) → ∀ k,
        (LoopState.new (millis s 0)).ClearsFlag config (fun j => millis s (e j)) k ↔
          IsLeast {j | 1000 * config.duration.toNat ≤ e j + 5} k := by
  intro h
  have hfirst := (h { duration := 4294968 } 0 (fun j => 1000 * (j + 1)) (by decide)
    (fun k => by omega) 0).mp (by unfold LoopState.ClearsFlag; decide)
  have hdue : 1000 * (4294968 : UInt32).toNat ≤ 1000 * (0 + 1) + 5 := hfirst.1
  exact absurd hdue (by decide)

end PulseCounter.PulseCounterMain
