import Mathlib.Data.List.Basic

/-!
# Erasing while iterating

The loop that walks a sequence with an iterator, erases the element under the iterator if it is
unwanted (the iterator then stands on the next element) and otherwise steps forward. It keeps
exactly the wanted elements, in order.
-/

namespace EraseLoop

variable {α : Type}

/-- The loop with its iterator at position `i`. Each pass uses up one element, so `fuel` bounds the
    number of passes. -/
def loop (unwanted : α → Bool) : Nat → List α → Nat → List α
  | 0, xs, _ => xs
  | fuel + 1, xs, i =>
    match xs[i]? with
    | none => xs
    | some x => if unwanted x then loop unwanted fuel (xs.eraseIdx i) i else loop unwanted fuel xs (i + 1)

/-- The whole loop, started at the first element. -/
def eraseAll (unwanted : α → Bool) (xs : List α) : List α := loop unwanted xs.length xs 0

/-- The loop leaves what the iterator has passed and filters what lies ahead of it. -/
theorem loop_append (unwanted : α → Bool) (fuel : Nat) (done ahead : List α)
    (hfuel : ahead.length ≤ fuel) :
    loop unwanted fuel (done ++ ahead) done.length = done ++ ahead.filter (fun x => !unwanted x) := by
  induction fuel generalizing done ahead with
  | zero =>
    obtain rfl : ahead = [] := List.length_eq_zero_iff.mp (Nat.le_zero.mp hfuel)
    simp [loop]
  | succ fuel ih =>
    cases ahead with
    | nil => simp [loop]
    | cons x ahead =>
      have hlen : ahead.length ≤ fuel := by simpa using hfuel
      rw [loop, List.getElem?_append_right (Nat.le_refl _)]
      simp only [Nat.sub_self, List.getElem?_cons_zero]
      by_cases hx : unwanted x = true
      · rw [if_pos hx, List.eraseIdx_append_of_length_le (Nat.le_refl _)]
        simp [hx, ih done ahead hlen]
      · have hstep := ih (done ++ [x]) ahead hlen
        simp only [List.append_assoc, List.singleton_append, List.length_append,
          List.length_singleton] at hstep
        rw [if_neg hx, hstep]
        simp [hx]

theorem eraseAll_eq_filter (unwanted : α → Bool) (xs : List α) :
    eraseAll unwanted xs = xs.filter (fun x => !unwanted x) := by
  simpa [eraseAll] using loop_append unwanted xs.length [] xs (Nat.le_refl _)

end EraseLoop
