import Mathlib.Data.List.Basic

/-!
# Counted loops and in-place sweeps

`forUpTo n body` runs `body 0`, …, `body (n - 1)` on a state and stops at the first error. Its rule
(`forUpTo_rule`) asks for an invariant indexed by the number of finished iterations.

A loop that overwrites the entries of an array from left to right leaves, after `j` iterations, the
array `sweep f g j l`: the first `j` entries already have their new value, the rest their old one.
-/

namespace Loop

/-! ## Counted loops -/

section ForUpTo

variable {σ ε : Type*}

/-- Run the body at the indices below `n` in increasing order. -/
def forUpTo (n : Nat) (body : Nat → σ → Except ε σ) (s : σ) : Except ε σ :=
  (List.range n).foldlM (fun s i => body i s) s

theorem forUpTo_succ (n : Nat) (body : Nat → σ → Except ε σ) (s : σ) :
    forUpTo (n + 1) body s = forUpTo n body s >>= body n := by
  unfold forUpTo
  rw [List.range_succ, List.foldlM_append]
  refine congrArg (forUpTo n body s >>= ·) (funext fun t => ?_)
  rw [List.foldlM_cons]
  exact bind_pure (body n t)

/-- **The rule of the counted loop.** If every iteration succeeds and carries the invariant from
its index to the next, the loop succeeds and ends with the invariant at `n`. -/
theorem forUpTo_rule {n : Nat} {body : Nat → σ → Except ε σ} (Inv : Nat → σ → Prop) {s : σ}
    (h0 : Inv 0 s)
    (hstep : ∀ i t, i < n → Inv i t → ∃ t', body i t = .ok t' ∧ Inv (i + 1) t') :
    ∃ s', forUpTo n body s = .ok s' ∧ Inv n s' := by
  induction n with
  | zero => exact ⟨s, rfl, h0⟩
  | succ n ih =>
    obtain ⟨t, ht, hinv⟩ := ih fun i t hi => hstep i t (Nat.lt_succ_of_lt hi)
    obtain ⟨t', ht', hinv'⟩ := hstep n t (Nat.lt_succ_self n) hinv
    refine ⟨t', ?_, hinv'⟩
    rw [forUpTo_succ, ht]
    exact ht'

end ForUpTo

/-! ## Sweeps -/

section Sweep

variable {α β : Type*}

/-- The first `j` entries of `l` seen through `f`, the others through `g`. -/
def sweep (f g : α → β) (j : Nat) (l : List α) : List β := (l.take j).map f ++ (l.drop j).map g

variable (f g : α → β)

theorem sweep_of_length_le {j : Nat} {l : List α} (h : l.length ≤ j) : sweep f g j l = l.map f := by
  rw [sweep, List.take_of_length_le h, List.drop_of_length_le h, List.map_nil, List.append_nil]

@[simp] theorem length_sweep (j : Nat) (l : List α) : (sweep f g j l).length = l.length := by
  simp only [sweep, List.length_append, List.length_map, List.length_take, List.length_drop]
  omega

theorem getElem?_sweep (j i : Nat) (l : List α) :
    (sweep f g j l)[i]? = l[i]?.map (if i < j then f else g) := by
  unfold sweep
  by_cases hl : j ≤ l.length
  · rw [List.getElem?_append, List.length_map, List.length_take, Nat.min_eq_left hl]
    by_cases h : i < j
    · simp [h]
    · simp [h, List.getElem?_drop, Nat.add_sub_cancel' (Nat.le_of_not_lt h)]
  · have hj : l.length ≤ j := Nat.le_of_not_le hl
    rw [List.take_of_length_le hj, List.drop_of_length_le hj]
    by_cases h : i < j
    · simp [h]
    · rw [List.getElem?_eq_none (by simp; omega), List.getElem?_eq_none (by omega)]
      rfl

/-- Entry `j` still has its old value when the sweep reaches it. -/
theorem getElem?_sweep_self {j : Nat} {l : List α} {a : α} (h : l[j]? = some a) :
    (sweep f g j l)[j]? = some (g a) := by
  simp [getElem?_sweep, h]

/-- Writing the new value of entry `j` moves the sweep on by one. -/
theorem sweep_set {j : Nat} {l : List α} {a : α} (h : l[j]? = some a) :
    (sweep f g j l).set j (f a) = sweep f g (j + 1) l := by
  have hj : j < l.length := (List.getElem?_eq_some_iff.mp h).1
  refine List.ext_getElem? fun i => ?_
  rw [List.getElem?_set, getElem?_sweep, getElem?_sweep, length_sweep]
  rcases Nat.lt_trichotomy i j with hi | rfl | hi
  · simp [hi, Nat.ne_of_gt hi, Nat.lt_succ_of_lt hi]
  · rw [if_pos rfl, if_pos hj, h]
    simp
  · simp [Nat.ne_of_lt hi, Nat.not_lt.mpr (Nat.le_of_lt hi), Nat.not_lt.mpr (Nat.succ_le_of_lt hi)]

/-- An entry whose value does not change may be left alone. -/
theorem sweep_succ_of_eq {j : Nat} {l : List α} {a : α} (h : l[j]? = some a) (hfg : f a = g a) :
    sweep f g (j + 1) l = sweep f g j l := by
  rw [← sweep_set f g h, hfg]
  have hj := getElem?_sweep_self f g h
  obtain ⟨hlt, he⟩ := List.getElem?_eq_some_iff.mp hj
  rw [← he, List.set_getElem_self]

end Sweep

end Loop
