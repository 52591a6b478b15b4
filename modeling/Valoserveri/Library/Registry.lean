import Mathlib.Data.List.Basic
import Mathlib.Data.List.Nodup
import Mathlib.Data.List.Pairwise

/-!
# Registries

Keys are added to a registry, given other values, and deleted again. What the registry holds is said by
the history of these commands alone: the keys that were added and not deleted since, each with the value
it was given last, in the order in which they were added. A list of entries that is extended at its end
and otherwise changed in place reflects its history, as long as no key is added twice.
-/

namespace Registry

variable {ι κ α : Type}

/-! ## Histories -/

/-- At position `i` of a history there is a `P`, and behind it no `Q`. -/
def SinceAt (P Q : ι → Prop) (log : List ι) (i : Nat) : Prop :=
  (∃ c, log[i]? = some c ∧ P c) ∧ ∀ j c, i < j → log[j]? = some c → ¬ Q c

theorem SinceAt.lt {P Q : ι → Prop} {log : List ι} {i : Nat} (h : SinceAt P Q log i) :
    i < log.length := by
  obtain ⟨⟨c, hc, -⟩, -⟩ := h
  exact (List.getElem?_eq_some_iff.mp hc).1

theorem getElem?_concat_eq_some {log : List ι} {c b : ι} {j : Nat} :
    (log ++ [c])[j]? = some b ↔ log[j]? = some b ∨ (j = log.length ∧ c = b) := by
  rcases Nat.lt_trichotomy j log.length with hj | rfl | hj
  · rw [List.getElem?_append_left hj]
    simp [Nat.ne_of_lt hj]
  · simp
  · rw [List.getElem?_eq_none (by simp; omega), List.getElem?_eq_none (Nat.le_of_lt hj)]
    simp [Nat.ne_of_gt hj]

/-- A history goes on with `c`. -/
theorem sinceAt_concat {P Q : ι → Prop} {log : List ι} {c : ι} {i : Nat} :
    SinceAt P Q (log ++ [c]) i ↔ (i = log.length ∧ P c) ∨ (SinceAt P Q log i ∧ ¬ Q c) := by
  constructor
  · rintro ⟨⟨a, ha, hP⟩, hQ⟩
    rcases getElem?_concat_eq_some.mp ha with ha | ⟨rfl, rfl⟩
    · have hi := (List.getElem?_eq_some_iff.mp ha).1
      have hc := hQ log.length c hi (getElem?_concat_eq_some.mpr (Or.inr ⟨rfl, rfl⟩))
      refine Or.inr ⟨⟨⟨a, ha, hP⟩, ?_⟩, hc⟩
      intro j b hj hb
      exact hQ j b hj (getElem?_concat_eq_some.mpr (Or.inl hb))
    · exact Or.inl ⟨rfl, hP⟩
  · rintro (⟨rfl, hP⟩ | ⟨h, hc⟩)
    · refine ⟨⟨c, getElem?_concat_eq_some.mpr (Or.inr ⟨rfl, rfl⟩), hP⟩, ?_⟩
      intro j b hj hb
      have hlt := (List.getElem?_eq_some_iff.mp hb).1
      rw [List.length_append, List.length_singleton] at hlt
      omega
    · obtain ⟨⟨a, ha, hP⟩, hQ⟩ := h
      refine ⟨⟨a, getElem?_concat_eq_some.mpr (Or.inl ha), hP⟩, ?_⟩
      intro j b hj hb
      rcases getElem?_concat_eq_some.mp hb with hb | ⟨-, rfl⟩
      · exact hQ j b hj hb
      · exact hc

theorem exists_sinceAt_concat {P Q : ι → Prop} {log : List ι} {c : ι} :
    (∃ i, SinceAt P Q (log ++ [c]) i) ↔ P c ∨ ((∃ i, SinceAt P Q log i) ∧ ¬ Q c) := by
  constructor
  · rintro ⟨i, h⟩
    rcases sinceAt_concat.mp h with ⟨-, hP⟩ | ⟨h, hc⟩
    · exact Or.inl hP
    · exact Or.inr ⟨⟨i, h⟩, hc⟩
  · rintro (hP | ⟨⟨i, h⟩, hc⟩)
    · exact ⟨log.length, sinceAt_concat.mpr (Or.inl ⟨rfl, hP⟩)⟩
    · exact ⟨i, sinceAt_concat.mpr (Or.inr ⟨h, hc⟩)⟩

/-! ## Commands -/

/-- A command to a registry. -/
inductive Command (κ α : Type) where
  | add (key : κ) (value : α)
  | change (key : κ) (value : α)
  | delete (key : κ)
deriving Repr, DecidableEq

/-- The key a command is about. -/
def Command.key : Command κ α → κ
  | .add key _ => key
  | .change key _ => key
  | .delete key => key

/-- The key is added. -/
def Command.Adds (c : Command κ α) (k : κ) : Prop := ∃ v, c = .add k v

/-- The key is given a value, with which it is added or to which it is changed. -/
def Command.Gives (c : Command κ α) (k : κ) (v : α) : Prop := c = .add k v ∨ c = .change k v

/-- The key is added at position `i` and not deleted since. -/
def RegisteredAt (log : List (Command κ α)) (k : κ) (i : Nat) : Prop :=
  SinceAt (fun c => c.Adds k) (fun c => c = .delete k) log i

/-- The key has been added and not deleted since. -/
def Registered (log : List (Command κ α)) (k : κ) : Prop := ∃ i, RegisteredAt log k i

/-- The value is the last one that the key has been given. -/
def Latest (log : List (Command κ α)) (k : κ) (v : α) : Prop :=
  ∃ i, SinceAt (fun c => c.Gives k v) (fun c => ∃ v', c.Gives k v') log i

/-- The entries are what the history says: one for each key that is registered, with its latest value,
    in the order in which the keys were added. -/
structure Reflects (entries : List (κ × α)) (log : List (Command κ α)) : Prop where
  nodup : (entries.map Prod.fst).Nodup
  mem_iff : ∀ k, k ∈ entries.map Prod.fst ↔ Registered log k
  latest : ∀ e ∈ entries, Latest log e.1 e.2
  ordered : entries.Pairwise fun a b =>
    ∀ i j, RegisteredAt log a.1 i → RegisteredAt log b.1 j → i < j

theorem registeredAt_concat {log : List (Command κ α)} {c : Command κ α} {k : κ} {i : Nat} :
    RegisteredAt (log ++ [c]) k i ↔
      (i = log.length ∧ c.Adds k) ∨ (RegisteredAt log k i ∧ c ≠ .delete k) :=
  sinceAt_concat

theorem registered_concat {log : List (Command κ α)} {c : Command κ α} {k : κ} :
    Registered (log ++ [c]) k ↔ c.Adds k ∨ (Registered log k ∧ c ≠ .delete k) :=
  exists_sinceAt_concat

theorem latest_concat {log : List (Command κ α)} {c : Command κ α} {k : κ} {v : α} :
    Latest (log ++ [c]) k v ↔ c.Gives k v ∨ (Latest log k v ∧ ¬ ∃ v', c.Gives k v') :=
  exists_sinceAt_concat

theorem not_registered_nil (k : κ) : ¬ Registered ([] : List (Command κ α)) k := by
  rintro ⟨i, ⟨c, hc, -⟩, -⟩
  simp at hc

theorem reflects_nil : Reflects ([] : List (κ × α)) [] where
  nodup := List.nodup_nil
  mem_iff k := iff_of_false List.not_mem_nil (not_registered_nil k)
  latest _ he := absurd he List.not_mem_nil
  ordered := List.Pairwise.nil

/-- A registration that a command has not made was there before. -/
theorem RegisteredAt.of_concat {log : List (Command κ α)} {c : Command κ α} {k : κ} {i : Nat}
    (h : RegisteredAt (log ++ [c]) k i) (hc : ¬ c.Adds k) : RegisteredAt log k i := by
  rcases registeredAt_concat.mp h with ⟨-, hadds⟩ | ⟨h, -⟩
  · exact absurd hadds hc
  · exact h

theorem Reflects.ne_of_not_registered {entries : List (κ × α)} {log : List (Command κ α)} {k : κ}
    {e : κ × α} (h : Reflects entries log) (hk : ¬ Registered log k) (he : e ∈ entries) : e.1 ≠ k := by
  rintro rfl
  exact hk ((h.mem_iff e.1).mp (List.mem_map_of_mem he))

/-! ## Carrying commands out -/

section Apply

variable [DecidableEq κ] {entries : List (κ × α)} {log : List (Command κ α)} {k : κ}

/-- A command is carried out on the entries. -/
def Command.apply (entries : List (κ × α)) : Command κ α → List (κ × α)
  | .add key value => entries ++ [(key, value)]
  | .change key value => entries.map fun e => if e.1 = key then (key, value) else e
  | .delete key => entries.filter fun e => e.1 ≠ key

theorem apply_cons_of_ne {e : κ × α} {c : Command κ α} (h : c.key ≠ e.1) (entries : List (κ × α)) :
    c.apply (e :: entries) = e :: c.apply entries := by
  cases c with
  | add key value => rfl
  | change key value =>
    have hne : e.1 ≠ key := Ne.symm h
    simp [Command.apply, hne]
  | delete key =>
    have hne : e.1 ≠ key := Ne.symm h
    simp [Command.apply, hne]

theorem Reflects.add (h : Reflects entries log) (hk : ¬ Registered log k) (v : α) :
    Reflects (Command.apply entries (.add k v)) (log ++ [.add k v]) where
  nodup := by
    have hnew : k ∉ entries.map Prod.fst := mt (h.mem_iff k).mp hk
    rw [Command.apply, List.map_append, List.map_singleton, ← List.concat_eq_append]
    exact h.nodup.concat hnew
  mem_iff := by
    intro k'
    rw [registered_concat, ← h.mem_iff]
    simp [Command.apply, Command.Adds, or_comm, eq_comm]
  latest := by
    intro e he
    rw [latest_concat]
    rcases List.mem_append.mp he with he | he
    · refine Or.inr ⟨h.latest e he, ?_⟩
      rintro ⟨v', hv' | hv'⟩
      · exact h.ne_of_not_registered hk he (Command.add.inj hv').1.symm
      · cases hv'
    · obtain rfl := List.mem_singleton.mp he
      exact Or.inl (Or.inl rfl)
  ordered := by
    have hold : ∀ e ∈ entries, ∀ i, RegisteredAt (log ++ [.add k v]) e.1 i → RegisteredAt log e.1 i := by
      intro e he i hi
      refine hi.of_concat ?_
      rintro ⟨v', hv'⟩
      exact h.ne_of_not_registered hk he (Command.add.inj hv').1.symm
    refine List.pairwise_append.mpr ⟨?_, List.pairwise_singleton _ _, ?_⟩
    · refine h.ordered.imp_of_mem ?_
      intro a b ha hb hab i j hi hj
      exact hab i j (hold a ha i hi) (hold b hb j hj)
    · -- the new key comes behind all others
      intro a ha b hb i j hi hj
      obtain rfl := List.mem_singleton.mp hb
      have hlt : i < log.length := SinceAt.lt (hold a ha i hi)
      rcases registeredAt_concat.mp hj with ⟨rfl, -⟩ | ⟨hj, -⟩
      · exact hlt
      · exact absurd ⟨j, hj⟩ hk

theorem Reflects.change (h : Reflects entries log) (k : κ) (v : α) :
    Reflects (Command.apply entries (.change k v)) (log ++ [.change k v]) := by
  have hadds : ∀ k', ¬ (Command.change k v).Adds k' := by
    rintro k' ⟨v', hv'⟩
    cases hv'
  have hkey : ∀ e : κ × α, (if e.1 = k then (k, v) else e).1 = e.1 := by
    intro e
    split_ifs with he
    · exact he.symm
    · rfl
  have hkeys : (Command.apply entries (.change k v)).map Prod.fst = entries.map Prod.fst := by
    rw [Command.apply, List.map_map]
    exact List.map_congr_left fun e _ => hkey e
  refine ⟨?_, ?_, ?_, ?_⟩
  · rw [hkeys]
    exact h.nodup
  · intro k'
    rw [hkeys, h.mem_iff, registered_concat]
    simp [hadds]
  · intro e he
    obtain ⟨e', he', rfl⟩ := List.mem_map.mp he
    rw [latest_concat]
    by_cases hek : e'.1 = k
    · rw [if_pos hek]
      exact Or.inl (Or.inr rfl)
    · rw [if_neg hek]
      refine Or.inr ⟨h.latest e' he', ?_⟩
      rintro ⟨v', hv' | hv'⟩
      · cases hv'
      · exact hek (Command.change.inj hv').1.symm
  · refine List.pairwise_map.mpr (h.ordered.imp ?_)
    intro a b hab i j hi hj
    rw [hkey] at hi hj
    exact hab i j (hi.of_concat (hadds _)) (hj.of_concat (hadds _))

theorem Reflects.delete (h : Reflects entries log) (k : κ) :
    Reflects (Command.apply entries (.delete k)) (log ++ [.delete k]) := by
  have hadds : ∀ k', ¬ (Command.delete k : Command κ α).Adds k' := by
    rintro k' ⟨v', hv'⟩
    cases hv'
  have hsub : (Command.apply entries (.delete k)).Sublist entries := List.filter_sublist
  refine ⟨h.nodup.sublist (hsub.map Prod.fst), ?_, ?_, ?_⟩
  · intro k'
    rw [registered_concat, ← h.mem_iff]
    constructor
    · intro hmem
      obtain ⟨e, he, rfl⟩ := List.mem_map.mp hmem
      obtain ⟨he, hne⟩ := List.mem_filter.mp he
      refine Or.inr ⟨List.mem_map_of_mem he, ?_⟩
      intro heq
      exact of_decide_eq_true hne (Command.delete.inj heq).symm
    · rintro (hk' | ⟨hmem, hne⟩)
      · exact absurd hk' (hadds k')
      · obtain ⟨e, he, rfl⟩ := List.mem_map.mp hmem
        refine List.mem_map_of_mem (List.mem_filter.mpr ⟨he, decide_eq_true ?_⟩)
        rintro rfl
        exact hne rfl
  · intro e he
    rw [latest_concat]
    refine Or.inr ⟨h.latest e (hsub.subset he), ?_⟩
    rintro ⟨v', hv' | hv'⟩
    · cases hv'
    · cases hv'
  · refine (h.ordered.sublist hsub).imp ?_
    intro a b hab i j hi hj
    exact hab i j (hi.of_concat (hadds _)) (hj.of_concat (hadds _))

/-- Entries that reflect their history still do so after a command, unless it adds a key that is
    registered. -/
theorem Reflects.apply (h : Reflects entries log) (c : Command κ α)
    (hc : ∀ k, c.Adds k → ¬ Registered log k) : Reflects (c.apply entries) (log ++ [c]) := by
  cases c with
  | add key value => exact h.add (hc key ⟨value, rfl⟩) value
  | change key value => exact h.change key value
  | delete key => exact h.delete key

end Apply

end Registry
