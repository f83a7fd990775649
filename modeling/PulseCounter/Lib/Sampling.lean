import PulseCounter.Lib.Edges

/-!
# Sampling a signal

A signal has a value at every moment. The samples taken at some of the moments rise no more often than the
signal does, and they rise as often exactly when its level changes at most once from each sample to the
next (`rises_samples_eq_iff`). This is so when the samples are no further apart than any two changes of the
level (`switches_le_one_of_dwell`).
-/

namespace Signal

variable {α : Type*} (p : α → Bool)

/-! ## Level changes -/

/-- The number of samples of `l` whose level is not that of the sample before. -/
def switches (a : α) (l : List α) : Nat := (steps a l).countP fun s => p s.1 != p s.2

@[simp] theorem switches_nil (a : α) : switches p a [] = 0 := rfl

theorem switches_cons (a b : α) (l : List α) :
    switches p a (b :: l) = (p a != p b).toNat + switches p b l := by
  unfold switches
  rw [steps_cons, List.countP_cons, Nat.add_comm]
  cases p a != p b <;> rfl

/-- **Rises and falls alternate**: of the level changes every other one is a rise. -/
theorem two_mul_rises (a : α) (l : List α) :
    2 * rises p a l + (p a).toNat = switches p a l + (p (l.getLastD a)).toNat := by
  induction l generalizing a with
  | nil => simp
  | cons b l ih =>
    have hedge : 2 * edge (p a) (p b) + (p a).toNat = (p a != p b).toNat + (p b).toNat := by
      cases p a <;> cases p b <;> rfl
    have hrest := ih b
    rw [rises_cons, switches_cons, List.getLastD_cons]
    omega

theorem edge_eq_sub (low high : Bool) : edge low high = high.toNat - low.toNat := by
  cases low <;> cases high <;> rfl

/-- A signal rises at least as often as its ends show. -/
theorem edge_le_rises (a : α) (l : List α) : edge (p a) (p (l.getLastD a)) ≤ rises p a l := by
  have hrises := two_mul_rises p a l
  have hends := edge_eq_sub (p a) (p (l.getLastD a))
  have hhigh := Bool.toNat_le (p (l.getLastD a))
  omega

/-- Its ends show all that happened when the level changed at most once. -/
theorem rises_eq_edge_iff (a : α) (l : List α) :
    rises p a l = edge (p a) (p (l.getLastD a)) ↔ switches p a l ≤ 1 := by
  have hrises := two_mul_rises p a l
  have hends := edge_eq_sub (p a) (p (l.getLastD a))
  have hhigh := Bool.toNat_le (p (l.getLastD a))
  have hlow := Bool.toNat_le (p a)
  omega

/-! ## Moments -/

/-- The values of a signal after the moment `a`, up to the moment `b`. -/
def trace (signal : Nat → α) (a b : Nat) : List α := (List.range' (a + 1) (b - a)).map signal

variable (signal : Nat → α)

theorem trace_append {a b c : Nat} (hab : a ≤ b) (hbc : b ≤ c) :
    trace signal a c = trace signal a b ++ trace signal b c := by
  have hsplit : c - a = (b - a) + (c - b) := by omega
  have hstart : b + 1 = a + 1 + 1 * (b - a) := by omega
  unfold trace
  rw [hsplit, hstart, ← List.map_append, List.range'_append]

theorem getLastD_trace {a b : Nat} (h : a ≤ b) : (trace signal a b).getLastD (signal a) = signal b := by
  obtain ⟨n, rfl⟩ := Nat.exists_eq_add_of_le h
  unfold trace
  rw [Nat.add_sub_cancel_left]
  cases n with
  | zero => rfl
  | succ n =>
    rw [List.range'_concat, List.map_append, List.map_singleton, List.getLastD_concat]
    congr 1
    omega

/-- How often the signal rises after the moment `a`, up to the moment `b`. -/
def risesBetween (a b : Nat) : Nat := rises p (signal a) (trace signal a b)

/-- How often its level changes. -/
def switchesBetween (a b : Nat) : Nat := switches p (signal a) (trace signal a b)

theorem risesBetween_self (a : Nat) : risesBetween p signal a a = 0 := by
  unfold risesBetween trace
  rw [Nat.sub_self]
  rfl

theorem risesBetween_add {a b c : Nat} (hab : a ≤ b) (hbc : b ≤ c) :
    risesBetween p signal a c = risesBetween p signal a b + risesBetween p signal b c := by
  unfold risesBetween
  rw [trace_append signal hab hbc, rises_append, getLastD_trace signal hab]

theorem le_getLastD {a : Nat} {times : List Nat} (h : (a :: times).IsChain (· ≤ ·)) :
    a ≤ times.getLastD a := by
  induction times generalizing a with
  | nil => exact Nat.le_refl a
  | cons b times ih =>
    obtain ⟨hab, hrest⟩ := List.isChain_cons_cons.mp h
    rw [List.getLastD_cons]
    exact Nat.le_trans hab (ih hrest)

/-- **Samples rise no more often** than the signal they are taken from. -/
theorem rises_samples_le {a : Nat} {times : List Nat} (h : (a :: times).IsChain (· ≤ ·)) :
    rises p (signal a) (times.map signal) ≤ risesBetween p signal a (times.getLastD a) := by
  induction times generalizing a with
  | nil => exact Nat.zero_le _
  | cons b times ih =>
    obtain ⟨hab, hrest⟩ := List.isChain_cons_cons.mp h
    rw [List.map_cons, rises_cons, List.getLastD_cons, risesBetween_add p signal hab (le_getLastD hrest)]
    refine Nat.add_le_add ?_ (ih hrest)
    have hedge := edge_le_rises p (signal a) (trace signal a b)
    rwa [getLastD_trace signal hab] at hedge

/-- **When samples miss nothing**: the level changes at most once from each sample to the next. -/
theorem rises_samples_eq_iff {a : Nat} {times : List Nat} (h : (a :: times).IsChain (· ≤ ·)) :
    rises p (signal a) (times.map signal) = risesBetween p signal a (times.getLastD a) ↔
      (a :: times).IsChain fun t t' => switchesBetween p signal t t' ≤ 1 := by
  induction times generalizing a with
  | nil => simp [risesBetween_self]
  | cons b times ih =>
    obtain ⟨hab, hrest⟩ := List.isChain_cons_cons.mp h
    have hle := rises_samples_le p signal hrest
    have hedge := edge_le_rises p (signal a) (trace signal a b)
    have hone := rises_eq_edge_iff p (signal a) (trace signal a b)
    rw [getLastD_trace signal hab] at hedge hone
    rw [List.isChain_cons_cons, ← ih hrest, List.map_cons, rises_cons, List.getLastD_cons,
      risesBetween_add p signal hab (le_getLastD hrest)]
    unfold switchesBetween
    rw [← hone]
    unfold risesBetween at hle ⊢
    omega

/-- Between two changes of the level there are at least `T` moments. -/
def Dwells (T : Nat) : Prop :=
  ∀ t t', t < t' → p (signal t) ≠ p (signal (t + 1)) → p (signal t') ≠ p (signal (t' + 1)) → t + T ≤ t'

theorem switchesBetween_succ {a b : Nat} (h : a < b) :
    switchesBetween p signal a b =
      (p (signal a) != p (signal (a + 1))).toNat + switchesBetween p signal (a + 1) b := by
  obtain ⟨n, rfl⟩ := Nat.exists_eq_add_of_lt h
  have hlength : a + n + 1 - a = n + 1 := by omega
  have hrest : a + n + 1 - (a + 1) = n := by omega
  unfold switchesBetween trace
  rw [hlength, hrest, List.range'_succ, List.map_cons, switches_cons]

theorem switchesBetween_eq_zero {a b : Nat} (h : a ≤ b)
    (hsame : ∀ t, a ≤ t → t < b → p (signal t) = p (signal (t + 1))) :
    switchesBetween p signal a b = 0 := by
  induction h using Nat.decreasingInduction with
  | self =>
    unfold switchesBetween trace
    rw [Nat.sub_self]
    rfl
  | of_succ a hab ih =>
    rw [switchesBetween_succ p signal hab, hsame a (Nat.le_refl a) hab, bne_self_eq_false,
      ih fun t ht => hsame t (Nat.le_of_succ_le ht)]
    rfl

/-- **Close samples**: in `T` moments a level that dwells for `T` moments changes at most once. -/
theorem switches_le_one_of_dwell {T a b : Nat} (h : Dwells p signal T) (hab : a ≤ b)
    (hbT : b ≤ a + T) : switchesBetween p signal a b ≤ 1 := by
  induction hab using Nat.decreasingInduction with
  | self => rw [switchesBetween_eq_zero p signal (Nat.le_refl b) (by omega)]; exact Nat.zero_le 1
  | of_succ a hab ih =>
    rw [switchesBetween_succ p signal hab]
    by_cases hsame : p (signal a) = p (signal (a + 1))
    · rw [hsame, bne_self_eq_false]
      exact Nat.le_trans (Nat.le_of_eq (Nat.zero_add _)) (ih (by omega))
    · -- the next change is out of reach
      rw [switchesBetween_eq_zero p signal hab]
      · exact Bool.toNat_le _
      · intro t hat htb
        by_contra hchange
        have hfar := h a t hat hsame hchange
        omega

end Signal
