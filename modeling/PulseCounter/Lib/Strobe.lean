import Mathlib.Data.List.Basic

/-!
# Values clocked into lines

A value is presented to lines that are clocked in banks, and a line takes it over when its clock goes up. A
strobe presents a value, clocks one line, takes the value away and then the clock: the line holds the value
and nothing else has changed. Strobes of one value leave it in the lines that they select (`run_strobes`),
and wherever they are broken off, no other line has been touched (`run_take_strobes`).
-/

namespace Strobe

variable {ι β α : Type*}

/-- What is presented to the lines, their clocks, and what each of them has taken over. -/
structure Lines (ι β : Type*) where
  presented : β
  clock : ι → Bool
  held : ι → β

inductive Access (ι β : Type*) where
  | present (value : β)
  /-- New clock levels for the lines of a bank. -/
  | clock (bank level : ι → Bool)

namespace Lines

def access (s : Lines ι β) : Access ι β → Lines ι β
  | .present value => { s with presented := value }
  | .clock bank level => { s with
      clock := fun i => if bank i then level i else s.clock i
      held := fun i => if bank i && level i && !s.clock i then s.presented else s.held i }

def run (s : Lines ι β) (accesses : List (Access ι β)) : Lines ι β := accesses.foldl access s

theorem run_append (s : Lines ι β) (l m : List (Access ι β)) : s.run (l ++ m) = (s.run l).run m :=
  List.foldl_append

/-- No clock is up. -/
def Idle (s : Lines ι β) : Prop := ∀ i, s.clock i = false

/-- From `s` to `t` at most the lines of `p` have been clocked, with `value`. -/
structure Within (p : ι → Prop) (value : β) (s t : Lines ι β) : Prop where
  clock : ∀ i, ¬p i → t.clock i = false
  held : ∀ i, ¬p i → t.held i = s.held i
  value : ∀ i, t.held i = s.held i ∨ t.held i = value

namespace Within

variable {p q : ι → Prop} {value : β} {s t u : Lines ι β}

theorem refl (hidle : s.Idle) : Within p value s s :=
  ⟨fun i _ => hidle i, fun _ _ => rfl, fun _ => .inl rfl⟩

theorem trans (h : Within p value s t) (h' : Within p value t u) : Within p value s u := by
  refine ⟨h'.clock, fun i hi => (h'.held i hi).trans (h.held i hi), fun i => ?_⟩
  rcases h'.value i with hsame | hvalue
  · rw [hsame]
    exact h.value i
  · exact .inr hvalue

theorem mono (hpq : ∀ i, p i → q i) (h : Within p value s t) : Within q value s t :=
  ⟨fun i hi => h.clock i fun hp => hi (hpq i hp), fun i hi => h.held i fun hp => hi (hpq i hp), h.value⟩

end Within

end Lines

/-- The accesses of one strobe. -/
def strobe (bank level off : ι → Bool) (value idle : β) : List (Access ι β) :=
  [.present value, .clock bank level, .present idle, .clock bank off]

/-- The clock levels of a strobe select a line of the bank. -/
structure Selects (bank level off : ι → Bool) (i : ι) : Prop where
  inBank : bank i = true
  level : ∀ j, bank j = true → (level j = true ↔ j = i)
  off : ∀ j, bank j = true → off j = false

section Single

variable {bank level off : ι → Bool} {i : ι} {s : Lines ι β}
  (h : Selects bank level off i) (hidle : s.Idle) (value idle : β)

include h

theorem Selects.level_of_ne {j : ι} (hj : j ≠ i) : (bank j && level j) = false := by
  cases hbank : bank j with
  | false => rfl
  | true =>
    rw [Bool.true_and, Bool.eq_false_iff, ne_eq, h.level j hbank]
    exact hj

include hidle

/-- The clock is up between the second and the fourth access. -/
theorem within_take_strobe (k : Nat) :
    Lines.Within (· = i) value s (s.run ((strobe bank level off value idle).take k)) := by
  -- the states after so many accesses
  have hup : Lines.Within (· = i) value s (s.run [.present value, .clock bank level]) := by
    refine ⟨fun j hj => ?_, fun j hj => ?_, fun j => ?_⟩
    · have hlow := h.level_of_ne hj
      change (if bank j then level j else s.clock j) = false
      split
      · next hbank =>
        rw [hbank, Bool.true_and] at hlow
        exact hlow
      · exact hidle j
    · change (if bank j && level j && !s.clock j then value else s.held j) = s.held j
      rw [h.level_of_ne hj, Bool.false_and]
      rfl
    · change (if bank j && level j && !s.clock j then value else s.held j) = s.held j ∨
        (if bank j && level j && !s.clock j then value else s.held j) = value
      split
      · exact .inr rfl
      · exact .inl rfl
  match k with
  | 0 => exact .refl hidle
  | 1 => exact ⟨fun j _ => hidle j, fun _ _ => rfl, fun _ => .inl rfl⟩
  | 2 => exact hup
  | 3 => exact ⟨hup.clock, hup.held, hup.value⟩
  | k + 4 =>
    have hheld : ∀ j, (s.run (strobe bank level off value idle)).held j =
        (s.run [.present value, .clock bank level]).held j := by
      intro j
      change (if bank j && off j && !_ then idle else _) = _
      cases hbank : bank j with
      | false => rfl
      | true =>
        rw [h.off j hbank]
        rfl
    have hall : (strobe bank level off value idle).take (k + 4) = strobe bank level off value idle :=
      List.take_of_length_le (Nat.le_add_left 4 k)
    rw [hall]
    refine ⟨fun j hj => ?_, fun j hj => (hheld j).trans (hup.held j hj), fun j => ?_⟩
    · change (if bank j then off j else (s.run [.present value, .clock bank level]).clock j) = false
      split
      · next hbank => exact h.off j hbank
      · exact hup.clock j hj
    · rw [hheld j]
      exact hup.value j

/-- **A strobe** leaves the line with the value, and no clock up. -/
theorem run_strobe : (s.run (strobe bank level off value idle)).Idle ∧
    (s.run (strobe bank level off value idle)).held i = value := by
  constructor
  · intro j
    change (if bank j then off j else if bank j then level j else s.clock j) = false
    cases hbank : bank j with
    | false => exact hidle j
    | true => exact h.off j hbank
  · change (if bank i && off i && _ then idle else
      if bank i && level i && !s.clock i then value else s.held i) = value
    rw [h.off i h.inBank, h.inBank, (h.level i h.inBank).mpr rfl, hidle i]
    rfl

end Single

/-! ## One strobe after another -/

section Many

variable {bank level off : α → ι → Bool} {line : α → ι} (value idle : β)

/-- **Strobes broken off**: whatever part of them has been done, only the lines selected have been clocked. -/
theorem run_take_strobes {xs : List α} (h : ∀ x ∈ xs, Selects (bank x) (level x) (off x) (line x))
    {s : Lines ι β} (hidle : s.Idle) (k : Nat) :
    Lines.Within (· ∈ xs.map line) value s
      (s.run ((xs.flatMap fun x => strobe (bank x) (level x) (off x) value idle).take k)) := by
  induction xs generalizing s k with
  | nil =>
    rw [List.flatMap_nil, List.take_nil]
    exact .refl hidle
  | cons x xs ih =>
    have hfirst := (within_take_strobe (h x List.mem_cons_self) hidle value idle k).mono
      (q := (· ∈ (x :: xs).map line)) fun i (hi : i = line x) => hi ▸ List.mem_cons_self
    rw [List.flatMap_cons, List.take_append]
    rcases Nat.lt_or_ge k 4 with hlt | hge
    · have hnone : k - (strobe (bank x) (level x) (off x) value idle).length = 0 :=
        Nat.sub_eq_zero_of_le (Nat.le_of_lt hlt)
      rw [hnone, List.take_zero, List.append_nil]
      exact hfirst
    · rw [Lines.run_append]
      refine hfirst.trans (Lines.Within.mono (fun i hi => List.mem_cons_of_mem _ hi)
        (ih (fun y hy => h y (List.mem_cons_of_mem x hy)) ?_ _))
      rw [List.take_of_length_le hge]
      exact (run_strobe (h x List.mem_cons_self) hidle value idle).1

/-- **Strobes of one value**: the lines selected hold it, and no clock is up. -/
theorem run_strobes {xs : List α} (h : ∀ x ∈ xs, Selects (bank x) (level x) (off x) (line x))
    {s : Lines ι β} (hidle : s.Idle) :
    (s.run (xs.flatMap fun x => strobe (bank x) (level x) (off x) value idle)).Idle ∧
      ∀ i ∈ xs.map line,
        (s.run (xs.flatMap fun x => strobe (bank x) (level x) (off x) value idle)).held i = value := by
  induction xs generalizing s with
  | nil => exact ⟨hidle, fun i hi => (nomatch hi)⟩
  | cons x xs ih =>
    obtain ⟨hoff, hheld⟩ := run_strobe (h x List.mem_cons_self) hidle value idle
    have htail : ∀ y ∈ xs, Selects (bank y) (level y) (off y) (line y) :=
      fun y hy => h y (List.mem_cons_of_mem x hy)
    obtain ⟨hidle', hrest⟩ := ih htail hoff
    rw [List.flatMap_cons, Lines.run_append]
    refine ⟨hidle', fun i hi => ?_⟩
    by_cases hmem : i ∈ xs.map line
    · exact hrest i hmem
    · -- the later strobes leave the line alone
      have hkept := (run_take_strobes value idle htail hoff
        (xs.flatMap fun x => strobe (bank x) (level x) (off x) value idle).length).held i hmem
      rw [List.take_length] at hkept
      rw [hkept]
      rcases List.mem_cons.mp hi with rfl | hlater
      · exact hheld
      · exact absurd hlater hmem

end Many

end Strobe
