import Mathlib.Data.List.Basic

/-!
# Runs of fallible steps

A fallible step either moves to a new state or stops the whole computation. The lemmas below take a
sequence of such steps apart and carry an invariant along a run.
-/

namespace ExceptRun

variable {ε σ ι α β : Type}

/-- A composed computation succeeds exactly if both parts do. -/
theorem bind_eq_ok {x : Except ε α} {f : α → Except ε β} {b : β} :
    x >>= f = .ok b ↔ ∃ a, x = .ok a ∧ f a = .ok b := by
  cases x with
  | error e => simp [bind, Except.bind]
  | ok a => simp [bind, Except.bind]

@[simp] theorem ok_bind (a : α) (f : α → Except ε β) : (Except.ok a).bind f = f a := rfl

theorem except_bind_eq_ok {x : Except ε α} {f : α → Except ε β} {b : β} :
    x.bind f = .ok b ↔ ∃ a, x = .ok a ∧ f a = .ok b :=
  bind_eq_ok

theorem map_eq_ok {x : Except ε α} {f : α → β} {b : β} (h : x.map f = .ok b) :
    ∃ a, x = .ok a ∧ f a = b := by
  cases x with
  | error e => cases h
  | ok a => exact ⟨a, rfl, Except.ok.inj h⟩

theorem exists_bind_ok_iff {x : Except ε α} {f : α → β} :
    (∃ b, x.bind (fun a => .ok (f a)) = .ok b) ↔ ∃ a, x = .ok a := by
  cases x with
  | error e => simp [Except.bind]
  | ok a => simp [Except.bind]

theorem exists_ok_of_isOk {x : Except ε α} (h : x.isOk = true) : ∃ a, x = .ok a := by
  cases x with
  | error e => cases h
  | ok a => exact ⟨a, rfl⟩

theorem foldlM_cons_eq_ok {step : σ → ι → Except ε σ} {s t : σ} {i : ι} {is : List ι} :
    (i :: is).foldlM step s = .ok t ↔ ∃ u, step s i = .ok u ∧ is.foldlM step u = .ok t := by
  rw [List.foldlM_cons]
  exact bind_eq_ok

theorem foldlM_append_eq_ok {step : σ → ι → Except ε σ} {s t : σ} {is js : List ι} :
    (is ++ js).foldlM step s = .ok t ↔
      ∃ u, is.foldlM step s = .ok u ∧ js.foldlM step u = .ok t := by
  rw [List.foldlM_append]
  exact bind_eq_ok

theorem foldlM_concat_eq_ok {step : σ → ι → Except ε σ} {s t : σ} {is : List ι} {i : ι} :
    (is ++ [i]).foldlM step s = .ok t ↔ ∃ u, is.foldlM step s = .ok u ∧ step u i = .ok t := by
  rw [foldlM_append_eq_ok]
  refine exists_congr fun u => and_congr_right fun _ => ?_
  rw [foldlM_cons_eq_ok]
  constructor
  · rintro ⟨v, hv, hnil⟩
    obtain rfl := Except.ok.inj hnil
    exact hv
  · intro hv
    exact ⟨t, hv, rfl⟩

/-- An invariant that every successful step keeps holds at the end of every successful run. -/
theorem foldlM_invariant {step : σ → ι → Except ε σ} (P : σ → Prop)
    (hstep : ∀ s i t, P s → step s i = .ok t → P t) {s t : σ} {is : List ι} (hs : P s)
    (h : is.foldlM step s = .ok t) : P t := by
  induction is generalizing s with
  | nil =>
    obtain rfl : s = t := by simpa [pure, Except.pure] using h
    exact hs
  | cons i is ih =>
    obtain ⟨u, hu, h⟩ := foldlM_cons_eq_ok.mp h
    exact ih (hstep s i u hs hu) h

/-- A run succeeds if every step succeeds from the states that satisfy the invariant. -/
theorem foldlM_total {step : σ → ι → Except ε σ} (P : σ → Prop) (is : List ι)
    (hstep : ∀ s, P s → ∀ i ∈ is, ∃ t, step s i = .ok t ∧ P t) {s : σ} (hs : P s) :
    ∃ t, is.foldlM step s = .ok t ∧ P t := by
  induction is generalizing s with
  | nil => exact ⟨s, rfl, hs⟩
  | cons i is ih =>
    obtain ⟨u, hu, hPu⟩ := hstep s hs i (by simp)
    obtain ⟨t, ht, hPt⟩ := ih (fun s hs j hj => hstep s hs j (List.mem_cons_of_mem _ hj)) hPu
    exact ⟨t, foldlM_cons_eq_ok.mpr ⟨u, hu, ht⟩, hPt⟩

/-- Two runs that go along with each other, the second one over a part of the state. -/
theorem map_foldlM {τ : Type} {step : σ → ι → Except ε σ} {step' : τ → ι → Except ε τ} {π : σ → τ}
    (hstep : ∀ s i, (step s i).map π = step' (π s) i) (s : σ) (is : List ι) :
    (is.foldlM step s).map π = is.foldlM step' (π s) := by
  induction is generalizing s with
  | nil => rfl
  | cons i is ih =>
    rw [List.foldlM_cons, List.foldlM_cons, ← hstep s i]
    cases step s i with
    | error e => rfl
    | ok t => exact ih t

/-! ## Runs under an assumption -/

/-- Every step of a run is one that is admitted where it is taken. -/
def Guarded (admits : σ → ι → Prop) (step : σ → ι → Except ε σ) : σ → List ι → Prop
  | _, [] => True
  | s, i :: is => admits s i ∧ ∀ t, step s i = .ok t → Guarded admits step t is

theorem foldlM_guarded {admits : σ → ι → Prop} {step : σ → ι → Except ε σ} (P : σ → Prop)
    (hstep : ∀ s i t, P s → admits s i → step s i = .ok t → P t) {s t : σ} {is : List ι} (hs : P s)
    (hadmits : Guarded admits step s is) (h : is.foldlM step s = .ok t) : P t := by
  induction is generalizing s with
  | nil =>
    obtain rfl : s = t := by simpa [pure, Except.pure] using h
    exact hs
  | cons i is ih =>
    obtain ⟨u, hu, h⟩ := foldlM_cons_eq_ok.mp h
    exact ih (hstep s i u hs hadmits.1 hu) (hadmits.2 u hu) h

/-! ## Errors that do not occur -/

/-- The computation does not stop with `e`. -/
def Avoids (e : ε) (x : Except ε α) : Prop := x ≠ .error e

theorem avoids_ok (e : ε) (a : α) : Avoids e (.ok a : Except ε α) := by
  intro h
  cases h

theorem avoids_error {e e' : ε} (h : e' ≠ e) : Avoids e (.error e' : Except ε α) := by
  intro h'
  exact h (Except.error.inj h')

theorem Avoids.bind {e : ε} {x : Except ε α} {f : α → Except ε β} (hx : Avoids e x)
    (hf : ∀ a, x = .ok a → Avoids e (f a)) : Avoids e (x.bind f) := by
  cases x with
  | error e' => exact avoids_error fun h => hx (congrArg _ h)
  | ok a => exact hf a rfl

end ExceptRun
