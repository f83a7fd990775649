import Mathlib.Data.List.Destutter

/-!
# Rising edges of a sampled signal

A signal is a list of samples of an arbitrary type, read through a two-valued level `p`, together
with the sample taken before the first one. `rises` counts the samples that are high right after a
low one; `changes` keeps the samples that differ from the sample before them.

* A sampler that looks only at the changes counts the same edges (`rises_changes`).
* A counter that starts from a low level in place of the real first level is ahead by the one edge
  it sees when the signal is still high at the first sample it is shown (`rises_of_low`).
* Two signals with the same sequence of values, however long each value lasts, have the same
  changes (`destutter_cons`).
-/

namespace Signal

variable {α β : Type*}

/-- Each sample of `l` paired with the one before it; `a` comes before the first. -/
def steps (a : α) (l : List α) : List (α × α) := (a :: l).zip l

/-- The number of samples of `l` that are high right after a low one. -/
def rises (p : α → Bool) (a : α) (l : List α) : Nat :=
  (steps a l).countP fun s => !p s.1 && p s.2

/-- The samples of `l` that differ from the one before them. -/
def changes [DecidableEq α] (a : α) (l : List α) : List α :=
  (steps a l).filterMap fun s => if s.2 ≠ s.1 then some s.2 else none

/-- One if the level goes from low to high, zero otherwise. -/
def edge (low high : Bool) : Nat := if !low && high then 1 else 0

@[simp] theorem edge_true_left (c : Bool) : edge true c = 0 := rfl

@[simp] theorem edge_false_right (b : Bool) : edge b false = 0 := by cases b <;> rfl

@[simp] theorem edge_self (b : Bool) : edge b b = 0 := by cases b <;> rfl

@[simp] theorem steps_cons (a b : α) (l : List α) : steps a (b :: l) = (a, b) :: steps b l := rfl

/-! ## Counting edges -/

section Rises

variable (p : α → Bool)

@[simp] theorem rises_nil (a : α) : rises p a [] = 0 := rfl

theorem rises_cons (a b : α) (l : List α) :
    rises p a (b :: l) = edge (p a) (p b) + rises p b l := by
  unfold rises edge
  rw [steps_cons, List.countP_cons, Nat.add_comm]

theorem rises_append (a : α) (l m : List α) :
    rises p a (l ++ m) = rises p a l + rises p (l.getLastD a) m := by
  induction l generalizing a with
  | nil => simp
  | cons b l ih => rw [List.cons_append, rises_cons, rises_cons, ih, List.getLastD_cons, Nat.add_assoc]

/-- One more sample adds one edge or none. -/
theorem rises_concat (a b : α) (l : List α) :
    rises p a (l ++ [b]) = rises p a l + edge (p (l.getLastD a)) (p b) := by
  rw [rises_append, rises_cons, rises_nil, Nat.add_zero]

/-- There are no more rises than samples. -/
theorem rises_le_length (a : α) (l : List α) : rises p a l ≤ l.length := by
  unfold rises
  refine Nat.le_trans List.countP_le_length ?_
  simp [steps]

theorem rises_le_of_prefix (a : α) {l m : List α} (h : l <+: m) : rises p a l ≤ rises p a m := by
  obtain ⟨rest, rfl⟩ := h
  rw [rises_append]
  exact Nat.le_add_right _ _

theorem rises_map (f : β → α) (a : β) (l : List β) :
    rises p (f a) (l.map f) = rises (fun x => p (f x)) a l := by
  induction l generalizing a with
  | nil => rfl
  | cons b l ih => rw [List.map_cons, rises_cons, rises_cons, ih]

/-- Starting from a low level counts one edge more exactly when the signal was high and its first
sample is high too. -/
theorem rises_of_low {z : α} (hz : p z = false) (a : α) (l : List α) :
    rises p z l = rises p a l + if p a && l.head?.any p then 1 else 0 := by
  cases l with
  | nil => simp
  | cons b l =>
    rw [rises_cons, rises_cons, hz]
    cases ha : p a <;> cases hb : p b <;> simp [edge, hb, Nat.add_comm]

end Rises

/-! ## Keeping only the changes -/

section Changes

variable [DecidableEq α]

@[simp] theorem changes_nil (a : α) : changes a [] = [] := rfl

theorem changes_cons_of_ne {a b : α} (h : b ≠ a) (l : List α) :
    changes a (b :: l) = b :: changes b l := by
  simp [changes, h]

@[simp] theorem changes_cons_self (a : α) (l : List α) : changes a (a :: l) = changes a l := by
  simp [changes]

theorem changes_append (a : α) (l m : List α) :
    changes a (l ++ m) = changes a l ++ changes (l.getLastD a) m := by
  induction l generalizing a with
  | nil => simp
  | cons b l ih =>
    rw [List.cons_append, List.getLastD_cons]
    by_cases h : b = a
    · subst h
      rw [changes_cons_self, changes_cons_self, ih]
    · rw [changes_cons_of_ne h, changes_cons_of_ne h, ih, List.cons_append]

/-- The changes end where the signal ends. -/
theorem getLastD_changes (a : α) (l : List α) : (changes a l).getLastD a = l.getLastD a := by
  induction l generalizing a with
  | nil => rfl
  | cons b l ih =>
    by_cases h : b = a
    · subst h
      rw [changes_cons_self, List.getLastD_cons, ih]
    · rw [changes_cons_of_ne h, List.getLastD_cons, List.getLastD_cons, ih]

/-- The first change is the first sample that differs from the one before the signal. -/
theorem head?_changes (a : α) (l : List α) : (changes a l).head? = l.find? (· ≠ a) := by
  induction l with
  | nil => rfl
  | cons b l ih =>
    by_cases h : b = a
    · subst h
      rw [changes_cons_self, ih, List.find?_cons_of_neg (by simp)]
    · rw [changes_cons_of_ne h, List.head?_cons, List.find?_cons_of_pos (by simpa using h)]

/-- **The changes carry every edge**: a repeated sample never rises. -/
theorem rises_changes (p : α → Bool) (a : α) (l : List α) :
    rises p a (changes a l) = rises p a l := by
  induction l generalizing a with
  | nil => rfl
  | cons b l ih =>
    by_cases h : b = a
    · subst h
      rw [changes_cons_self, rises_cons, edge_self, Nat.zero_add, ih]
    · rw [changes_cons_of_ne h, rises_cons, rises_cons, ih]

/-- Collapsing runs of equal samples leaves the first sample and the changes. -/
theorem destutter_cons (a : α) (l : List α) :
    (a :: l).destutter (· ≠ ·) = a :: changes a l := by
  rw [List.destutter_cons']
  induction l generalizing a with
  | nil => rfl
  | cons b l ih =>
    by_cases h : b = a
    · subst h
      rw [List.destutter'_cons_neg _ (by simp), changes_cons_self, ih]
    · rw [List.destutter'_cons_pos _ (Ne.symm h), changes_cons_of_ne h, ih]

end Changes

end Signal
