import Mathlib.Logic.Relation

/-!
# Machines that take one action at a time

A machine answers an action in a state with nothing (the action is not enabled there), an error, or
the next state. Several threads are one machine whose actions are the small steps of each thread, so
the runs of the machine are all their interleavings. A run can be restricted to the actions that a
condition on the state before the step lets through.
-/

/-- A machine with states `σ`, actions `A` and errors `ε`. -/
structure Machine (σ A ε : Type*) where
  step : A → σ → Option (Except ε σ)

namespace Machine

variable {σ A ε : Type*} (M : Machine σ A ε)

/-- One successful step by an action that `ok` lets through. -/
def Moves (ok : A → σ → Prop) (s t : σ) : Prop := ∃ a, ok a s ∧ M.step a s = some (.ok t)

/-- A finite run whose steps are all let through. -/
def Run (ok : A → σ → Prop) : σ → σ → Prop := Relation.ReflTransGen (M.Moves ok)

/-- A state that some finite run leads to, whatever its actions. -/
def Reachable : σ → σ → Prop := M.Run fun _ _ => True

/-- No enabled action fails in this state. -/
def Sound (s : σ) : Prop := ∀ a e, M.step a s ≠ some (.error e)

variable {M} {ok : A → σ → Prop} {s t : σ}

/-- **The invariant rule**: what holds at the start and survives every step of a run holds at its
end. -/
theorem Run.invariant (h : M.Run ok s t) (Inv : σ → Prop) (h0 : Inv s)
    (hstep : ∀ a u v, ok a u → Inv u → M.step a u = some (.ok v) → Inv v) : Inv t := by
  induction h with
  | refl => exact h0
  | tail _ hmove ih =>
    obtain ⟨a, hok, hs⟩ := hmove
    exact hstep a _ _ hok ih hs

/-- The invariant rule for all runs. -/
theorem Reachable.invariant (h : M.Reachable s t) (Inv : σ → Prop) (h0 : Inv s)
    (hstep : ∀ a u v, Inv u → M.step a u = some (.ok v) → Inv v) : Inv t :=
  Run.invariant h Inv h0 fun a u v _ => hstep a u v

/-- An invariant that every enabled action keeps, without failing, makes every reachable state
sound. -/
theorem Reachable.safe (h : M.Reachable s t) (Inv : σ → Prop) (h0 : Inv s)
    (hstep : ∀ a u r, Inv u → M.step a u = some r → ∃ v, r = .ok v ∧ Inv v) :
    Inv t ∧ M.Sound t := by
  have hinv : Inv t := by
    refine h.invariant Inv h0 fun a u v hu hs => ?_
    obtain ⟨w, hw, hinv⟩ := hstep a u _ hu hs
    injection hw with hw
    rw [hw]
    exact hinv
  refine ⟨hinv, fun a e hs => ?_⟩
  obtain ⟨v, hv, -⟩ := hstep a t _ hinv hs
  cases hv

variable (M) in
/-- Take the actions of a schedule in order. -/
def exec : List A → σ → Option (Except ε σ)
  | [], s => some (.ok s)
  | a :: as, s =>
    match M.step a s with
    | some (.ok t) => exec as t
    | r => r

variable (M) in
/-- The machine whose actions are enabled only where they are let through. -/
def guarded (ok : A → σ → Prop) [∀ a s, Decidable (ok a s)] : Machine σ A ε where
  step a s := if ok a s then M.step a s else none

/-- What is observed after a schedule of actions that are all let through is observed at the end of a
run. -/
theorem Run.of_exec [∀ a s, Decidable (ok a s)] {β : Type*} (f : σ → β) {b : β} (as : List A)
    (h : ((M.guarded ok).exec as s).map (Except.map f) = some (.ok b)) :
    ∃ t, M.Run ok s t ∧ f t = b := by
  induction as generalizing s with
  | nil =>
    refine ⟨s, Relation.ReflTransGen.refl, ?_⟩
    injection h with h
    injection h
  | cons a as ih =>
    unfold exec at h
    split at h
    · next u hu =>
      obtain ⟨t, ht, hft⟩ := ih h
      change (if ok a s then M.step a s else none) = _ at hu
      split at hu
      · next hok => exact ⟨t, Relation.ReflTransGen.head ⟨a, hok, hu⟩ ht, hft⟩
      · cases hu
    · next r hr =>
      cases hstep : (M.guarded ok).step a s with
      | none =>
        rw [hstep] at h
        cases h
      | some r' =>
        cases r' with
        | error e =>
          rw [hstep] at h
          cases h
        | ok u => exact absurd hstep (hr u)

end Machine
