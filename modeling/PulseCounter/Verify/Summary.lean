import PulseCounter.DisplayData
import Mathlib.Order.Bounds.Basic

/-!
# The summary

`findMinMax` takes the first count as it is and goes through the others, leaving out the zeros. What it
has found after some of them is `Scanned`. So a zero in the first place is taken for the smallest count
and is counted, and a zero in any other place is neither (`figures_describe_iff`).

The values computed from it stay in range as long as the exact sum of the counts fits the `unsigned
long` it is converted to (`summary_in_range_iff`): every count that is added lies between the smallest
and the largest one found, and there are as many as the divisor says.
-/

namespace PulseCounter.DisplayData

/-- How many counts are not zero. -/
def nonzero (a : List UInt32) : Nat := a.countP (· ≠ 0)

/-- How many counts `findMinMax` takes into account: the first, and the others that are not zero. -/
def counted (a : List UInt32) : Nat := nonzero (a.drop 1) + 1

theorem nonzero_append (l l' : List UInt32) : nonzero (l ++ l') = nonzero l + nonzero l' :=
  List.countP_append

theorem nonzero_singleton (x : UInt32) : nonzero [x] = if x = 0 then 0 else 1 := by
  unfold nonzero
  rw [List.countP_singleton]
  by_cases hx : x = 0
  · simp [hx]
  · simp [hx]

theorem nonzero_concat (l : List UInt32) (x : UInt32) :
    nonzero (l ++ [x]) = nonzero l + if x = 0 then 0 else 1 := by
  rw [nonzero_append, nonzero_singleton]

theorem nonzero_cons (x : UInt32) (l : List UInt32) :
    nonzero (x :: l) = nonzero l + if x = 0 then 0 else 1 := by
  rw [← List.singleton_append, nonzero_append, nonzero_singleton, Nat.add_comm]

/-! ## The loop of `findMinMax` -/

/-- What the loop holds after the entries `l`, when it started from `m₀`. -/
structure Scanned (m₀ : MinMaxT) (l : List UInt32) (m : MinMaxT) : Prop where
  min_mem : m._min = m₀._min ∨ m._min ∈ l ∧ m._min ≠ 0
  min_le : m._min ≤ m₀._min ∧ ∀ x ∈ l, x ≠ 0 → m._min ≤ x
  max_mem : m._max = m₀._max ∨ m._max ∈ l
  le_max : m₀._max ≤ m._max ∧ ∀ x ∈ l, x ≤ m._max
  total : m._total = m₀._total + UInt32.ofNat (nonzero l)

/-- A zero is left out. -/
theorem Scanned.concat_zero {m₀ m : MinMaxT} {l : List UInt32} (h : Scanned m₀ l m) :
    Scanned m₀ (l ++ [0]) m := by
  refine ⟨?_, ⟨h.min_le.1, ?_⟩, ?_, ⟨h.le_max.1, ?_⟩, ?_⟩
  · exact h.min_mem.imp_right fun hmin => ⟨List.mem_append_left _ hmin.1, hmin.2⟩
  · rw [List.forall_mem_append, List.forall_mem_singleton]
    exact ⟨h.min_le.2, fun hne => absurd rfl hne⟩
  · exact h.max_mem.imp_right (List.mem_append_left _)
  · rw [List.forall_mem_append, List.forall_mem_singleton]
    exact ⟨h.le_max.2, UInt32.zero_le⟩
  · rw [nonzero_concat, if_pos rfl]
    exact h.total

/-- A smaller entry takes the place of the minimum. -/
theorem updateMin_le (least x : UInt32) :
    (if least > x then x else least) ≤ least ∧ (if least > x then x else least) ≤ x := by
  split
  · next hlt => exact ⟨UInt32.le_of_lt hlt, UInt32.le_refl x⟩
  · next hge => exact ⟨UInt32.le_refl least, UInt32.not_lt.mp hge⟩

theorem le_updateMax (greatest x : UInt32) :
    greatest ≤ (if greatest < x then x else greatest) ∧
      x ≤ if greatest < x then x else greatest := by
  split
  · next hlt => exact ⟨UInt32.le_of_lt hlt, UInt32.le_refl x⟩
  · next hge => exact ⟨UInt32.le_refl greatest, UInt32.not_lt.mp hge⟩

theorem Scanned.concat_of_ne {m₀ m : MinMaxT} {l : List UInt32} (h : Scanned m₀ l m) {x : UInt32}
    (hx : x ≠ 0) : Scanned m₀ (l ++ [x]) (updateMinMax m x) := by
  have hmin := updateMin_le m._min x
  have hmax := le_updateMax m._max x
  unfold updateMinMax
  rw [if_neg hx]
  refine ⟨?_, ⟨UInt32.le_trans hmin.1 h.min_le.1, ?_⟩, ?_, ⟨UInt32.le_trans h.le_max.1 hmax.1, ?_⟩, ?_⟩
  · change (if m._min > x then x else m._min) = _ ∨ _
    split
    · exact Or.inr ⟨List.mem_append_right _ List.mem_cons_self, hx⟩
    · exact h.min_mem.imp_right fun hmem => ⟨List.mem_append_left _ hmem.1, hmem.2⟩
  · rw [List.forall_mem_append, List.forall_mem_singleton]
    refine ⟨fun y hy hne => ?_, fun _ => hmin.2⟩
    exact UInt32.le_trans hmin.1 (h.min_le.2 y hy hne)
  · change (if m._max < x then x else m._max) = _ ∨ _
    split
    · exact Or.inr (List.mem_append_right _ List.mem_cons_self)
    · exact h.max_mem.imp_right (List.mem_append_left _)
  · rw [List.forall_mem_append, List.forall_mem_singleton]
    exact ⟨fun y hy => UInt32.le_trans (h.le_max.2 y hy) hmax.1, hmax.2⟩
  · rw [nonzero_concat, if_neg hx]
    change m._total + 1 = _
    rw [h.total, UInt32.add_assoc, UInt32.ofNat_add]
    rfl

/-- One more entry. -/
theorem Scanned.concat {m₀ m : MinMaxT} {l : List UInt32} (h : Scanned m₀ l m) (x : UInt32) :
    Scanned m₀ (l ++ [x]) (updateMinMax m x) := by
  by_cases hx : x = 0
  · subst hx
    unfold updateMinMax
    rw [if_pos rfl]
    exact h.concat_zero
  · exact h.concat_of_ne hx

theorem foldl_updateMinMax (m₀ : MinMaxT) (l : List UInt32) :
    Scanned m₀ l (l.foldl updateMinMax m₀) := by
  induction l using List.reverseRecOn with
  | nil =>
    refine ⟨Or.inl rfl, ⟨UInt32.le_refl _, ?_⟩, Or.inl rfl, ⟨UInt32.le_refl _, ?_⟩, ?_⟩
    · intro x hx
      cases hx
    · intro x hx
      cases hx
    · exact (UInt32.add_zero _).symm
  | append_singleton l x ih =>
    rw [List.foldl_append]
    exact ih.concat x

/-! ## What `findMinMax` returns -/

/-- The figures of `findMinMax` on any counts: between them lie the counts it takes into account. -/
structure Found (a : List UInt32) (m : MinMaxT) : Prop where
  min_mem : m._min ∈ a
  min_le : ∀ x ∈ a, x ≠ 0 → m._min ≤ x
  min_le_head : ∀ x, a.head? = some x → m._min ≤ x
  min_eq : m._min ≠ 0 ∨ a.head? = some 0
  max_mem : m._max ∈ a
  le_max : ∀ x ∈ a, x ≤ m._max
  total : m._total = UInt32.ofNat (counted a)

theorem findMinMax_found {a : List UInt32} (ha : a ≠ []) :
    ∃ m, findMinMax a = .ok m ∧ Found a m := by
  obtain ⟨first, rest, rfl⟩ := List.exists_cons_of_ne_nil ha
  have hscan := foldl_updateMinMax { _min := first, _max := first, _total := 1 } rest
  refine ⟨rest.foldl updateMinMax { _min := first, _max := first, _total := 1 }, ?_, ?_⟩
  · unfold findMinMax
    rw [subscript_eq (List.getElem?_cons_zero)]
    rfl
  · refine ⟨?_, ?_, ?_, ?_, ?_, ?_, ?_⟩
    · rcases hscan.min_mem with hmin | ⟨hmin, -⟩
      · rw [hmin]
        exact List.mem_cons_self
      · exact List.mem_cons_of_mem _ hmin
    · intro x hx hne
      rcases List.mem_cons.mp hx with rfl | hx
      · exact hscan.min_le.1
      · exact hscan.min_le.2 x hx hne
    · intro x hx
      injection hx with hx
      subst hx
      exact hscan.min_le.1
    · rcases hscan.min_mem with hmin | ⟨-, hmin⟩
      · by_cases hfirst : first = 0
        · exact Or.inr (congrArg some hfirst)
        · exact Or.inl (by rw [hmin]; exact hfirst)
      · exact Or.inl hmin
    · rcases hscan.max_mem with hmax | hmax
      · rw [hmax]
        exact List.mem_cons_self
      · exact List.mem_cons_of_mem _ hmax
    · intro x hx
      rcases List.mem_cons.mp hx with rfl | hx
      · exact hscan.le_max.1
      · exact hscan.le_max.2 x hx
    · rw [hscan.total, counted, List.drop_one, List.tail_cons, UInt32.ofNat_add, UInt32.add_comm]
      rfl

/-- The values of the summary that are computed from them. -/
theorem statics_of_findMinMax (p : Platform) {a : List UInt32} {m : MinMaxT}
    (h : findMinMax a = .ok m) (duration : UInt32) :
    ∃ st, statics p a duration = .ok st ∧
      st.mean = (p.toUnsignedLong (accumulate a)).toNat / m._total.toNat ∧
      st.delta = m._max - m._min := by
  unfold statics
  rw [h]
  refine ⟨_, rfl, ?_, rfl⟩
  change (if m._total > 0 then _ else _) = _
  split
  · rfl
  · next hzero =>
    have htotal : m._total.toNat = 0 := by
      rw [gt_iff_lt, UInt32.lt_iff_toNat_lt] at hzero
      exact Nat.eq_zero_of_not_pos hzero
    rw [htotal, Nat.div_zero]

/-! ## The sum and the mean -/

theorem accumulate_cons (x : UInt32) (l : List UInt32) :
    accumulate (x :: l) = x.toNat + accumulate l := by
  unfold accumulate
  rw [List.map_cons, List.sum_cons]

theorem accumulate_le {l : List UInt32} {c : UInt32} (h : ∀ x ∈ l, x ≤ c) :
    accumulate l ≤ nonzero l * c.toNat := by
  induction l with
  | nil => exact Nat.zero_le _
  | cons x l ih =>
    rw [List.forall_mem_cons] at h
    have hx := UInt32.le_iff_toNat_le.mp h.1
    have hrest := ih h.2
    rw [accumulate_cons, nonzero_cons, Nat.add_mul]
    split
    · next hzero =>
      have hvalue : x.toNat = 0 := by rw [hzero]; rfl
      omega
    · omega

theorem le_accumulate {l : List UInt32} {c : UInt32} (h : ∀ x ∈ l, x ≠ 0 → c ≤ x) :
    nonzero l * c.toNat ≤ accumulate l := by
  induction l with
  | nil =>
    change 0 * c.toNat ≤ 0
    omega
  | cons x l ih =>
    rw [List.forall_mem_cons] at h
    have hrest := ih h.2
    rw [accumulate_cons, nonzero_cons, Nat.add_mul]
    split
    · omega
    · next hne =>
      have hx := UInt32.le_iff_toNat_le.mp (h.1 hne)
      omega

namespace Found

variable {a : List UInt32} {m : MinMaxT}

theorem accumulate_le (h : Found a m) : accumulate a ≤ counted a * m._max.toNat := by
  cases a with
  | nil => exact Nat.zero_le _
  | cons first rest =>
    have hfirst := UInt32.le_iff_toNat_le.mp (h.le_max first List.mem_cons_self)
    have hrest := DisplayData.accumulate_le fun x hx => h.le_max x (List.mem_cons_of_mem _ hx)
    rw [accumulate_cons, counted, List.drop_one, List.tail_cons, Nat.add_mul]
    omega

theorem le_accumulate (h : Found a m) : counted a * m._min.toNat ≤ accumulate a := by
  cases a with
  | nil =>
    have hmem := h.min_mem
    cases hmem
  | cons first rest =>
    have hfirst := UInt32.le_iff_toNat_le.mp (h.min_le_head first rfl)
    have hrest := DisplayData.le_accumulate fun x hx => h.min_le x (List.mem_cons_of_mem _ hx)
    rw [accumulate_cons, counted, List.drop_one, List.tail_cons, Nat.add_mul]
    omega

theorem min_le_max (h : Found a m) : m._min ≤ m._max := h.le_max _ h.min_mem

/-- The divisor, when it is not more than a word. -/
theorem total_toNat (h : Found a m) (hfits : counted a < 2 ^ 32) : m._total.toNat = counted a := by
  rw [h.total, UInt32.toNat_ofNat', Nat.mod_eq_of_lt hfits]

end Found

/-- There are no more counts taken into account than their sum, but for a zero in the first place. -/
theorem counted_le (a : List UInt32) : counted a ≤ accumulate a + 1 := by
  have hle := le_accumulate (l := a.drop 1) (c := 1) fun x _ hne => by
    rw [UInt32.le_iff_toNat_le]
    have hpos : x.toNat ≠ 0 := fun h => hne (UInt32.toNat_inj.mp h)
    change 1 ≤ x.toNat
    omega
  have hdrop : accumulate (a.drop 1) ≤ accumulate a := by
    cases a with
    | nil => exact Nat.le_refl _
    | cons first rest =>
      rw [accumulate_cons]
      exact Nat.le_add_left _ _
  rw [counted]
  change nonzero (a.drop 1) * 1 ≤ _ at hle
  omega

/-- **The summary stays in range**: the sum fits an `unsigned long` of 32 bits, the divisor is not
zero, the mean lies between the smallest and the largest count found and their difference does not go
below zero, exactly when the exact sum and the number of counts taken into account are words. -/
theorem summary_in_range_iff (p : Platform) (hp : p.ulongBits = 32) (a : List UInt32) (ha : a ≠ [])
    (duration : UInt32) :
    ∃ m st, findMinMax a = .ok m ∧ statics p a duration = .ok st ∧
      (accumulate a < 2 ^ p.ulongBits ∧ m._total ≠ 0 ∧
          m._min.toNat ≤ st.mean ∧ st.mean ≤ m._max.toNat ∧
          (st.delta.toNat : Int) = m._max.toNat - m._min.toNat ↔
        accumulate a < 2 ^ 32 ∧ counted a < 2 ^ 32) := by
  obtain ⟨m, hm, hfound⟩ := findMinMax_found ha
  obtain ⟨st, hst, hmean, hdelta⟩ := statics_of_findMinMax p hm duration
  refine ⟨m, st, hm, hst, ?_⟩
  have hcounted := counted_le a
  constructor
  · rintro ⟨hfits, hne, -⟩
    rw [hp] at hfits
    refine ⟨hfits, ?_⟩
    -- one more than the largest word would make the divisor zero
    by_contra hlarge
    have hvalue : counted a = 2 ^ 32 := by omega
    rw [hfound.total, hvalue] at hne
    exact hne rfl
  · rintro ⟨hfits, hword⟩
    have htotal := hfound.total_toNat hword
    have hpos : 0 < counted a := Nat.succ_pos _
    rw [← hp] at hfits
    rw [p.toUnsignedLong_of_lt _ hfits, htotal] at hmean
    refine ⟨hfits, ?_, ?_, ?_, ?_⟩
    · intro hzero
      rw [hzero] at htotal
      exact Nat.ne_of_gt hpos htotal.symm
    · rw [hmean, Nat.le_div_iff_mul_le hpos, Nat.mul_comm]
      exact hfound.le_accumulate
    · rw [hmean]
      exact Nat.div_le_of_le_mul hfound.accumulate_le
    · have hle := UInt32.le_iff_toNat_le.mp hfound.min_le_max
      rw [hdelta, UInt32.toNat_sub_of_le _ _ hfound.min_le_max, Nat.cast_sub hle]

/-- Counts with silent channels. -/
theorem summary_in_range_iff_silent :
    ∃ m st, findMinMax [3, 0, 5] = .ok m ∧ statics .saturating [3, 0, 5] 1000 = .ok st ∧
      m._min.toNat ≤ st.mean ∧ st.mean ≤ m._max.toNat := by
  obtain ⟨m, st, hm, hst, hrange⟩ :=
    summary_in_range_iff .saturating rfl [3, 0, 5] (List.cons_ne_nil _ _) 1000
  obtain ⟨-, -, hmin, hmax, -⟩ := hrange.mpr ⟨by decide, by decide⟩
  exact ⟨m, st, hm, hst, hmin, hmax⟩

/-- The sum of two counts of `2 ^ 31` does not fit. -/
theorem summary_out_of_range :
    ¬∀ (p : Platform) (a : List UInt32) (duration : UInt32) (m : MinMaxT) (st : Statics),
      p.ulongBits = 32 → a ≠ [] → findMinMax a = .ok m → statics p a duration = .ok st →
      accumulate a < 2 ^ p.ulongBits ∧ m._total ≠ 0 ∧
        m._min.toNat ≤ st.mean ∧ st.mean ≤ m._max.toNat ∧
        (st.delta.toNat : Int) = m._max.toNat - m._min.toNat := by
  intro h
  obtain ⟨st, hst, -⟩ := statics_of_findMinMax .saturating
    (a := [0x80000000, 0x80000000]) (m := { _min := 0x80000000, _max := 0x80000000, _total := 2 })
    rfl 1000
  obtain ⟨hfits, -⟩ := h .saturating _ 1000 _ st rfl (List.cons_ne_nil _ _) rfl hst
  exact absurd hfits (by decide)

/-! ## Counts and channels -/

/-- The figures describe the counts: the largest one, the smallest one that is not zero, how many are
not zero, and the mean of those. -/
structure Describes (a : List UInt32) (m : MinMaxT) (mean : Nat) : Prop where
  max : IsGreatest {x | x ∈ a} m._max
  min : if nonzero a = 0 then m._min = 0 else IsLeast {x | x ∈ a ∧ x ≠ 0} m._min
  total : m._total.toNat = nonzero a
  mean : mean = if nonzero a = 0 then 0 else accumulate a / nonzero a

/-- A zero in the first place is counted too. -/
theorem counted_of_head {a : List UInt32} (ha : a ≠ []) :
    counted a = nonzero a + if a.head? = some 0 then 1 else 0 := by
  obtain ⟨first, rest, rfl⟩ := List.exists_cons_of_ne_nil ha
  rw [counted, List.drop_one, List.tail_cons, List.head?_cons, nonzero_cons]
  by_cases hfirst : first = 0
  · rw [if_pos hfirst, if_pos (congrArg some hfirst)]
  · rw [if_neg hfirst, if_neg fun h => hfirst (Option.some.inj h)]

namespace Found

variable {a b : List UInt32} {m m' : MinMaxT}

theorem describes_iff (h : Found a m) (ha : a ≠ []) :
    Describes a m (accumulate a / m._total.toNat) ↔ a.head? ≠ some 0 ∧ nonzero a < 2 ^ 32 := by
  have hcounted := counted_of_head ha
  constructor
  · intro hd
    have htotal := hd.total
    have hlt := m._total.toNat_lt
    rw [h.total, UInt32.toNat_ofNat', hcounted] at htotal
    have hword : nonzero a < 2 ^ 32 := by
      rw [← hd.total]
      exact hlt
    refine ⟨fun hzero => ?_, hword⟩
    rw [if_pos hzero] at htotal
    omega
  · rintro ⟨hhead, hword⟩
    rw [if_neg hhead, Nat.add_zero] at hcounted
    have htotal := h.total_toNat (hcounted ▸ hword)
    rw [hcounted] at htotal
    have hpos : nonzero a ≠ 0 := by
      rw [← hcounted]
      exact Nat.succ_ne_zero _
    refine ⟨⟨h.max_mem, h.le_max⟩, ?_, htotal, ?_⟩
    · rw [if_neg hpos]
      refine ⟨⟨h.min_mem, ?_⟩, fun x hx => h.min_le x hx.1 hx.2⟩
      exact h.min_eq.resolve_right hhead
    · rw [if_neg hpos, htotal]

/-- Counts without a zero have the same figures in any order. -/
theorem eq_of_perm (h : Found a m) (h' : Found b m') (hperm : b.Perm a) (hzero : 0 ∉ a) :
    m' = m := by
  have hzero' : 0 ∉ b := fun hmem => hzero (hperm.mem_iff.mp hmem)
  have hmin : m'._min = m._min := by
    have hmem := hperm.mem_iff.mp h'.min_mem
    have hmem' := hperm.mem_iff.mpr h.min_mem
    apply UInt32.le_antisymm
    · exact h'.min_le _ hmem' fun heq => hzero (heq ▸ h.min_mem)
    · exact h.min_le _ hmem fun heq => hzero' (heq ▸ h'.min_mem)
  have hmax : m'._max = m._max := by
    apply UInt32.le_antisymm
    · exact h.le_max _ (hperm.mem_iff.mp h'.max_mem)
    · exact h'.le_max _ (hperm.mem_iff.mpr h.max_mem)
  have hhead : ∀ {c : List UInt32}, 0 ∉ c → c.head? ≠ some 0 := fun hc heq =>
    hc (List.mem_of_head? heq)
  have hne : a ≠ [] := List.ne_nil_of_mem h.min_mem
  have hne' : b ≠ [] := List.ne_nil_of_mem h'.min_mem
  have htotal : m'._total = m._total := by
    rw [h'.total, h.total, counted_of_head hne, counted_of_head hne', if_neg (hhead hzero),
      if_neg (hhead hzero')]
    unfold nonzero
    rw [hperm.countP_eq]
  obtain ⟨min, max, total⟩ := m
  obtain ⟨min', max', total'⟩ := m'
  simp only at hmin hmax htotal
  rw [hmin, hmax, htotal]

end Found

/-- A zero and a count that is not zero: which of them comes first makes a difference. -/
theorem findMinMax_ne_of_perm {a : List UInt32} {x : UInt32} (hzero : 0 ∈ a) (hx : x ∈ a)
    (hne : x ≠ 0) : findMinMax (0 :: a.erase 0) ≠ findMinMax (x :: a.erase x) := by
  intro heq
  obtain ⟨m, hm, hfound⟩ := findMinMax_found (List.cons_ne_nil 0 (a.erase 0))
  obtain ⟨m', hm', hfound'⟩ := findMinMax_found (List.cons_ne_nil x (a.erase x))
  rw [heq, hm'] at hm
  injection hm with hm
  subst hm
  have htotal := hfound.total.symm.trans hfound'.total
  have hcount : ∀ y ∈ a, nonzero (y :: a.erase y) = nonzero a := fun y hy =>
    (List.perm_cons_erase hy).symm.countP_eq _
  rw [counted_of_head (List.cons_ne_nil _ _), counted_of_head (List.cons_ne_nil _ _), hcount 0 hzero,
    hcount x hx, List.head?_cons, List.head?_cons, if_pos rfl, if_neg (by simpa using hne),
    Nat.add_zero, UInt32.ofNat_add] at htotal
  exact absurd (UInt32.add_eq_left.mp htotal) (by decide)

theorem accumulate_perm {a b : List UInt32} (h : b.Perm a) : accumulate b = accumulate a := by
  unfold accumulate
  exact (h.map UInt32.toNat).sum_nat

/-- **The figures describe the counts** when the first count is not zero, and they are the same for
every order of the channels when no count is zero or all are; neither is so otherwise. The sum is
taken to convert exactly. -/
theorem figures_describe_iff (p : Platform) (a : List UInt32) (ha : a ≠ [])
    (hexact : (p.toUnsignedLong (accumulate a)).toNat = accumulate a) (duration : UInt32) :
    ∃ m st, findMinMax a = .ok m ∧ statics p a duration = .ok st ∧
      (Describes a m st.mean ↔ a.head? ≠ some 0 ∧ nonzero a < 2 ^ 32) ∧
      ((∀ b, b.Perm a → findMinMax b = .ok m ∧
          ∃ st', statics p b duration = .ok st' ∧ st'.mean = st.mean) ↔
        0 ∉ a ∨ ∀ x ∈ a, x = 0) := by
  obtain ⟨m, hm, hfound⟩ := findMinMax_found ha
  obtain ⟨st, hst, hmean, -⟩ := statics_of_findMinMax p hm duration
  refine ⟨m, st, hm, hst, ?_, ?_⟩
  · rw [hmean, hexact]
    exact hfound.describes_iff ha
  · constructor
    · intro hsame
      by_contra hmixed
      push Not at hmixed
      obtain ⟨hzero, x, hx, hne⟩ := hmixed
      have hfirst := (hsame _ (List.perm_cons_erase hzero).symm).1
      have hsecond := (hsame _ (List.perm_cons_erase hx).symm).1
      exact findMinMax_ne_of_perm hzero hx hne (hfirst.trans hsecond.symm)
    · rintro (hzero | hall) b hperm
      · have hne : b ≠ [] := fun hnil => ha (List.nil_perm.mp (hnil ▸ hperm))
        obtain ⟨m', hm', hfound'⟩ := findMinMax_found hne
        obtain ⟨st', hst', hmean', -⟩ := statics_of_findMinMax p hm' duration
        have heq := hfound.eq_of_perm hfound' hperm hzero
        refine ⟨heq ▸ hm', st', hst', ?_⟩
        rw [hmean', hmean, heq, accumulate_perm hperm]
      · have hreplicate := List.eq_replicate_iff.mpr ⟨rfl, hall⟩
        rw [hreplicate, List.perm_replicate, ← hreplicate] at hperm
        subst hperm
        exact ⟨hm, st, hst, rfl⟩

/-- A silent channel behind one that counts: the figures are right, in this order. -/
theorem figures_describe_iff_behind :
    ∃ m st, findMinMax [3, 0, 5] = .ok m ∧ statics .saturating [3, 0, 5] 1000 = .ok st ∧
      Describes [3, 0, 5] m st.mean := by
  obtain ⟨m, st, hm, hst, hfigures, -⟩ :=
    figures_describe_iff .saturating [3, 0, 5] (List.cons_ne_nil _ _) (by decide) 1000
  exact ⟨m, st, hm, hst, hfigures.mpr ⟨by decide, by decide⟩⟩

/-- A silent first channel is counted. -/
theorem figures_miscount_first :
    ¬∀ (p : Platform) (a : List UInt32) (duration : UInt32) (m : MinMaxT) (st : Statics), a ≠ [] →
      (p.toUnsignedLong (accumulate a)).toNat = accumulate a → findMinMax a = .ok m →
      statics p a duration = .ok st → Describes a m st.mean := by
  intro h
  obtain ⟨st, hst, -⟩ := statics_of_findMinMax .saturating
    (a := [0, 5]) (m := { _min := 0, _max := 5, _total := 2 }) rfl 1000
  have hfigures := h .saturating [0, 5] 1000 _ st (List.cons_ne_nil _ _) (by decide) rfl hst
  exact absurd hfigures.total (by decide)

end PulseCounter.DisplayData
