import PulseCounter.Lib.Machine
import Mathlib.Data.List.Count

/-!
# Machines that follow one another

A machine refines another one along a relation when each of its steps from related states does not fail
and is matched by a run of the other one, which may be empty (`Simulates`). Then its runs are matched by
runs (`Simulates.reachable`), so what is observed of it is observed of the other one.

Liveness comes as bounds: when every action of some kind lowers a measure that no action raises, a
schedule has no more actions of that kind than the measure says at its start (`exec_countP_le`). And when
outside of the goal some action lowers a measure, the goal can be reached (`Reachable.of_progress`).
-/

namespace Machine

variable {σ A ε τ B ε' : Type*}

/-- Every step of `C` is matched by a run of `M` along `R`, and none fails. -/
def Simulates (C : Machine σ A ε) (M : Machine τ B ε') (R : σ → τ → Prop) : Prop :=
  ∀ s t a r, R s t → C.step a s = some r → ∃ s', r = .ok s' ∧ ∃ t', M.Reachable t t' ∧ R s' t'

section Reachable

variable {M : Machine σ A ε} {s t u : σ}

theorem Reachable.refl (M : Machine σ A ε) (s : σ) : M.Reachable s s := Relation.ReflTransGen.refl

theorem Reachable.trans (h : M.Reachable s t) (h' : M.Reachable t u) : M.Reachable s u :=
  Relation.ReflTransGen.trans h h'

theorem Reachable.of_step {a : A} (h : M.step a s = some (.ok t)) : M.Reachable s t :=
  Relation.ReflTransGen.single ⟨a, trivial, h⟩

theorem Reachable.step (h : M.Reachable s t) {a : A} (h' : M.step a t = some (.ok u)) :
    M.Reachable s u :=
  h.trans (.of_step h')

/-- A schedule that executes to the end is a run. -/
theorem Reachable.of_exec {as : List A} (h : M.exec as s = some (.ok t)) : M.Reachable s t := by
  induction as generalizing s with
  | nil =>
    injection h with h
    injection h with h
    subst h
    exact .refl M s
  | cons a as ih =>
    unfold exec at h
    split at h
    · next v hv => exact (Reachable.of_step hv).trans (ih h)
    · next hfails => exact absurd h (hfails t)

/-- **The invariant rule with the schedule so far.** -/
theorem exec_invariant (Inv : List A → σ → Prop)
    (hstep : ∀ as a u v, Inv as u → M.step a u = some (.ok v) → Inv (as ++ [a]) v) {as : List A}
    (h0 : Inv [] s) (h : M.exec as s = some (.ok t)) : Inv as t := by
  suffices hall : ∀ (before as : List A) (s : σ), Inv before s → M.exec as s = some (.ok t) →
      Inv (before ++ as) t from hall [] as s h0 h
  intro before as
  induction as generalizing before with
  | nil =>
    intro s hs h
    injection h with h
    injection h with h
    rw [List.append_nil, ← h]
    exact hs
  | cons a as ih =>
    intro s hs h
    unfold exec at h
    split at h
    · next v hv =>
      rw [List.append_cons]
      exact ih (before ++ [a]) v (hstep before a s v hs hv) h
    · next hfails => exact absurd h (hfails t)

theorem exec_append (as bs : List A) (s : σ) : M.exec (as ++ bs) s =
    match M.exec as s with
    | some (.ok t) => M.exec bs t
    | r => r := by
  induction as generalizing s with
  | nil => rfl
  | cons a as ih =>
    rw [List.cons_append]
    simp only [exec]
    cases hstep : M.step a s with
    | none => rfl
    | some r =>
      cases r with
      | error e => rfl
      | ok t => exact ih t

theorem exec_of_observed {as : List A} {β : Type*} {f : σ → β} {b : β}
    (h : (M.exec as s).map (Except.map f) = some (.ok b)) : ∃ t, M.exec as s = some (.ok t) ∧ f t = b := by
  cases hexec : M.exec as s with
  | none =>
    rw [hexec] at h
    cases h
  | some r =>
    rw [hexec] at h
    cases r with
    | error e => cases h
    | ok t =>
      injection h with h
      injection h with h
      exact ⟨t, rfl, h⟩

end Reachable

section Simulates

variable {C : Machine σ A ε} {M : Machine τ B ε'} {R : σ → τ → Prop} {s s' : σ} {t : τ}

/-- **Runs are matched by runs**, and no action of a state that is reached fails. -/
theorem Simulates.reachable (h : Simulates C M R) (hst : R s t) (hs : C.Reachable s s') :
    (∃ t', M.Reachable t t' ∧ R s' t') ∧ C.Sound s' := by
  refine hs.safe (fun u => ∃ t', M.Reachable t t' ∧ R u t') ⟨t, .refl M t, hst⟩ ?_
  rintro a u r ⟨t', ht', hu⟩ hr
  obtain ⟨v, hv, t'', ht'', hv'⟩ := h u t' a r hu hr
  exact ⟨v, hv, t'', ht'.trans ht'', hv'⟩

end Simulates

/-- **The rule of the log.** A log that a step leaves alone or extends by one entry has, in some state on
the way, been each of its prefixes that extend what it was at the start. -/
theorem Reachable.log {M : Machine σ A ε} {s t : σ} {β : Type*} (f : σ → List β)
    (hstep : ∀ a u v, M.Reachable s u → M.step a u = some (.ok v) → f v = f u ∨ ∃ x, f v = f u ++ [x])
    (h : M.Reachable s t) {l : List β} (hs : f s <+: l) (ht : l <+: f t) :
    ∃ u, M.Reachable s u ∧ f u = l := by
  induction h with
  | refl => exact ⟨s, .refl M s, List.IsPrefix.eq_of_length_le hs ht.length_le⟩
  | @tail u v hu hmove ih =>
    obtain ⟨a, -, ha⟩ := hmove
    obtain hkeep | ⟨x, hlog⟩ := hstep a u v hu ha
    · exact ih (hkeep ▸ ht)
    · rw [hlog] at ht
      obtain hl | hl := List.prefix_concat_iff.mp ht
      · exact ⟨v, Reachable.step hu ha, hlog.trans hl.symm⟩
      · exact ih hl

section Bounds

variable {M : Machine σ A ε} {s t : σ}

/-- **The rule of the measure**: actions of a kind that lower what no action raises are limited. -/
theorem exec_countP_le (Inv : σ → Prop) (ok : A → Prop) (kind : A → Bool) (measure : σ → Nat)
    (hstep : ∀ a u v, ok a → Inv u → M.step a u = some (.ok v) →
      Inv v ∧ measure v + (if kind a then 1 else 0) ≤ measure u)
    (as : List A) (hok : ∀ a ∈ as, ok a) (h0 : Inv s) (h : M.exec as s = some (.ok t)) :
    Inv t ∧ as.countP kind + measure t ≤ measure s := by
  induction as generalizing s with
  | nil =>
    injection h with h
    injection h with h
    subst h
    exact ⟨h0, Nat.le_of_eq (Nat.zero_add _)⟩
  | cons a as ih =>
    rw [List.forall_mem_cons] at hok
    unfold exec at h
    split at h
    · next v hv =>
      obtain ⟨hinv, hle⟩ := hstep a s v hok.1 h0 hv
      obtain ⟨hinv', hrest⟩ := ih hok.2 hinv h
      refine ⟨hinv', ?_⟩
      rw [List.countP_cons]
      omega
    · next hfails => exact absurd h (hfails t)

/-- **The rule of progress**: a goal that can always be approached can be reached. -/
theorem Reachable.of_progress (Inv goal : σ → Prop) (measure : σ → Nat)
    (hstep : ∀ u, Inv u → ¬goal u → ∃ a v, M.step a u = some (.ok v) ∧ Inv v ∧ measure v < measure u)
    (s : σ) (h0 : Inv s) : ∃ t, M.Reachable s t ∧ goal t := by
  by_cases hgoal : goal s
  · exact ⟨s, .refl M s, hgoal⟩
  · obtain ⟨a, v, hs, hinv, hlt⟩ := hstep s h0 hgoal
    obtain ⟨t, ht, hgoal'⟩ := of_progress Inv goal measure hstep v hinv
    exact ⟨t, (Reachable.of_step hs).trans ht, hgoal'⟩
termination_by measure s

end Bounds

end Machine
