import Mathlib.Data.Finset.Basic
import Mathlib.Logic.Relation

/-!
# Broadcasting a message that changes

Members come and go, and each is to be given the current message. A member is not sent the message
when it is published but is marked, and the message of the moment is sent to it some time later.
Publishing again before that replaces what it will be sent, so not every message arrives, but the
current one always does or is still going to.
-/

namespace Broadcast

variable {ι α : Type} [DecidableEq ι]

/-- The members, those of them that are marked, the last message sent to each, and the current one. -/
structure State (ι α : Type) where
  members : Finset ι
  marked : Finset ι
  sent : ι → Option α
  message : α

namespace State

/-- A member joins, and is marked. -/
def join (s : State ι α) (i : ι) : State ι α :=
  { s with
    members := insert i s.members
    marked := insert i s.marked
    sent := Function.update s.sent i none }

/-- A member leaves. -/
def leave (s : State ι α) (i : ι) : State ι α :=
  { s with members := s.members.erase i, marked := s.marked.erase i }

/-- A member is sent the current message. -/
def send (s : State ι α) (i : ι) : State ι α :=
  { s with marked := s.marked.erase i, sent := Function.update s.sent i (some s.message) }

/-- A message is published. -/
def publish (s : State ι α) (message : α) : State ι α :=
  { s with message, marked := s.marked ∪ s.members }

/-- Every member has the current message or is marked. -/
def NoneLost (s : State ι α) : Prop :=
  ∀ i ∈ s.members, s.sent i = some s.message ∨ i ∈ s.marked

end State

/-- The steps of a broadcast. -/
inductive Step (s : State ι α) : State ι α → Prop
  | join (i : ι) : Step s (s.join i)
  | leave (i : ι) : Step s (s.leave i)
  | send (i : ι) : Step s (s.send i)
  | publish (message : α) : Step s (s.publish message)

variable {s t : State ι α}

theorem NoneLost.step (h : s.NoneLost) (hstep : Step s t) : t.NoneLost := by
  cases hstep with
  | join i =>
    intro j hj
    by_cases hji : j = i
    · exact Or.inr (Finset.mem_insert.mpr (Or.inl hji))
    · have hjs : j ∈ s.members := (Finset.mem_insert.mp hj).resolve_left hji
      rcases h j hjs with hsent | hmarked
      · exact Or.inl ((Function.update_of_ne hji _ _).trans hsent)
      · exact Or.inr (Finset.mem_insert_of_mem hmarked)
  | leave i =>
    intro j hj
    obtain ⟨hji, hjs⟩ := Finset.mem_erase.mp hj
    exact (h j hjs).imp_right fun hmarked => Finset.mem_erase.mpr ⟨hji, hmarked⟩
  | send i =>
    intro j hj
    by_cases hji : j = i
    · subst hji
      exact Or.inl (Function.update_self _ _ _)
    · rcases h j hj with hsent | hmarked
      · exact Or.inl ((Function.update_of_ne hji _ _).trans hsent)
      · exact Or.inr (Finset.mem_erase.mpr ⟨hji, hmarked⟩)
  | publish message =>
    intro j hj
    exact Or.inr (Finset.mem_union_right _ hj)

/-- No run of a broadcast loses a message. -/
theorem NoneLost.run (h : s.NoneLost) (hrun : Relation.ReflTransGen Step s t) : t.NoneLost := by
  induction hrun with
  | refl => exact h
  | tail _ hstep ih => exact NoneLost.step ih hstep

end Broadcast
