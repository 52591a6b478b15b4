import Mathlib.Logic.Relation

/-!
# Publishing behind a dirty flag

A state has a current value and somewhere outside a copy of it. Steps that change the value raise a
flag, and the value is published again when the flag is next seen. As long as every step either raises
the flag or changes nothing that matters, a state whose flag is down has its current value published.
-/

namespace DirtyFlag

variable {σ α : Type}

/-- A value that is published, and the flag that says it has to be published again. -/
structure Tracker (σ α : Type) where
  dirty : σ → Bool
  current : σ → α
  Published : σ → α → Prop

namespace Tracker

variable (T : Tracker σ α)

/-- The current value is published, or will be. -/
def UpToDate (s : σ) : Prop := T.dirty s = true ∨ T.Published s (T.current s)

/-- A step that raises the flag, or keeps it and keeps the value published if it was. -/
def Careful (s t : σ) : Prop :=
  T.dirty t = true ∨
    T.dirty t = T.dirty s ∧ (T.Published s (T.current s) → T.Published t (T.current t))

variable {T} {s t : σ}

theorem UpToDate.step (h : T.UpToDate s) (hstep : T.Careful s t) : T.UpToDate t := by
  rcases hstep with hdirty | ⟨hdirty, hpublished⟩
  · exact Or.inl hdirty
  · rcases h with h | h
    · exact Or.inl (hdirty.trans h)
    · exact Or.inr (hpublished h)

/-- Careful steps, any number of them. -/
theorem UpToDate.run {r : σ → σ → Prop} (hcareful : ∀ s t, r s t → T.Careful s t)
    (hrun : Relation.ReflTransGen r s t) (h : T.UpToDate s) : T.UpToDate t := by
  induction hrun with
  | refl => exact h
  | tail _ hstep ih => exact ih.step (hcareful _ _ hstep)

/-- With the flag down, the current value is published. -/
theorem UpToDate.published (h : T.UpToDate s) (hclean : T.dirty s = false) :
    T.Published s (T.current s) :=
  h.resolve_left (by simp [hclean])

end Tracker

end DirtyFlag
