import Mathlib.Order.Bounds.Basic
import Mathlib.Order.Nat
import Mathlib.Order.WellFounded

/-!
# Deadlines

A flag that starts raised and is lowered by the first test that comes out true drops at the least
index where the test does (`latch_drops_iff`). A test that stands for another, one carried out in
wrapping arithmetic say, lowers the flag at the right index exactly when it comes out true there and
not before (`isLeast_iff_isLeast`). To know that the flag does not drop too early, it is enough to look
at the indices that are too early, each on its own (`forall_isLeast_iff`).
-/

namespace Deadline

/-- The flag after the tests below `k`. -/
def latch (test : ℕ → Bool) : ℕ → Bool
  | 0 => true
  | k + 1 => !test k && latch test k

theorem latch_eq_true_iff {test : ℕ → Bool} {k : ℕ} :
    latch test k = true ↔ ∀ j < k, test j = false := by
  induction k with
  | zero => exact ⟨fun _ j hj => absurd hj (Nat.not_lt_zero j), fun _ => rfl⟩
  | succ k ih =>
    rw [latch, Bool.and_eq_true, Bool.not_eq_true', ih, Nat.forall_lt_succ_right, and_comm]

theorem isLeast_iff_forall_lt {P : ℕ → Prop} {k : ℕ} :
    IsLeast {j | P j} k ↔ P k ∧ ∀ j < k, ¬P j := by
  constructor
  · rintro ⟨hk, hleast⟩
    exact ⟨hk, fun j hj hP => absurd (hleast hP) (Nat.not_le_of_lt hj)⟩
  · rintro ⟨hk, hbefore⟩
    exact ⟨hk, fun j hj => Nat.le_of_not_lt fun hlt => hbefore j hlt hj⟩

/-- **The flag drops** at the least index where the test comes out true. -/
theorem latch_drops_iff {test : ℕ → Bool} {k : ℕ} :
    latch test k = true ∧ latch test (k + 1) = false ↔ IsLeast {j | test j = true} k := by
  rw [isLeast_iff_forall_lt, latch]
  simp only [Bool.not_eq_true]
  constructor
  · rintro ⟨hraised, hdropped⟩
    rw [hraised, Bool.and_true, Bool.not_eq_false'] at hdropped
    exact ⟨hdropped, latch_eq_true_iff.mp hraised⟩
  · rintro ⟨htest, hbefore⟩
    refine ⟨latch_eq_true_iff.mpr hbefore, ?_⟩
    rw [htest]
    rfl

/-- **Two tests** come out true for the first time at the same index exactly when the second one does
so where the first one does. -/
theorem isLeast_iff_isLeast {P Q : ℕ → Prop} {m : ℕ} (hm : IsLeast {j | P j} m) :
    (∀ k, IsLeast {j | Q j} k ↔ IsLeast {j | P j} k) ↔ Q m ∧ ∀ j < m, ¬Q j := by
  rw [← isLeast_iff_forall_lt]
  constructor
  · intro hsame
    exact (hsame m).mpr hm
  · intro hQ k
    rw [hQ.isLeast_iff_eq, hm.isLeast_iff_eq]

/-- What is too early is before what is not: so the first index is not too early exactly when none of
those that are is one at all. -/
theorem forall_isLeast_iff {P early : ℕ → Prop} (hearly : Antitone early) :
    (∀ k, IsLeast {j | P j} k → ¬early k) ↔ ∀ k, early k → ¬P k := by
  classical
  constructor
  · intro hfirst k hk hP
    have hleast := Nat.isLeast_find ⟨k, hP⟩
    exact hfirst _ hleast (hearly (hleast.2 hP) hk)
  · intro hnever k hleast hk
    exact hnever k hk hleast.1

/-- A bound that is waited for comes. -/
theorem exists_isLeast {f : ℕ → ℕ} (hf : StrictMono f) (bound : ℕ) :
    ∃ m, IsLeast {j | bound ≤ f j} m :=
  ⟨_, Nat.isLeast_find ⟨bound, hf.le_apply⟩⟩

end Deadline
