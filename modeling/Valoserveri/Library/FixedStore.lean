import Mathlib.Data.Finmap

/-!
# Stores with a fixed domain

A store that is only ever updated in place: writing at a key it holds replaces the value there, and
writing at any other key does nothing. The elements of an array and the entries of a map that is
never grown are such stores. A sequence of writes is then determined by its last write at each key,
whatever was written in between.
-/

namespace FixedStore

variable {σ κ α : Type}

/-- A store over states `σ` that is updated in place, observed through `get`. -/
structure Store (σ κ α : Type) [DecidableEq κ] where
  /-- The value held at a key, if the store has that key. -/
  get : σ → κ → Option α
  /-- Replace the value at a key. -/
  put : σ → κ → α → σ
  /-- Writing at `k` replaces the value held there and changes nothing else. -/
  get_put : ∀ s k v j, get (put s k v) j = if j = k then (get s j).map (fun _ => v) else get s j
  /-- A state is determined by what can be read from it. -/
  ext : ∀ s t, (∀ k, get s k = get t k) → s = t

/-- The value a sequence of writes leaves at `k`, if it writes there at all. -/
def lastWrite [DecidableEq κ] : List (κ × α) → κ → Option α
  | [], _ => none
  | w :: ws, k => (lastWrite ws k).or (if w.1 = k then some w.2 else none)

section LastWrite

variable [DecidableEq κ]

theorem lastWrite_append (ws vs : List (κ × α)) (k : κ) :
    lastWrite (ws ++ vs) k = (lastWrite vs k).or (lastWrite ws k) := by
  induction ws with
  | nil => simp [lastWrite]
  | cons w ws ih => simp [lastWrite, ih, Option.or_assoc]

theorem lastWrite_eq_none_iff {ws : List (κ × α)} {k : κ} :
    lastWrite ws k = none ↔ k ∉ ws.map Prod.fst := by
  induction ws with
  | nil => simp [lastWrite]
  | cons w ws ih =>
    rw [lastWrite, Option.or_eq_none_iff, ih]
    by_cases h : w.1 = k
    · simp [h]
    · simp [h, Ne.symm h]

theorem mem_of_lastWrite_eq_some {ws : List (κ × α)} {k : κ} {v : α} (h : lastWrite ws k = some v) :
    (k, v) ∈ ws := by
  induction ws with
  | nil => simp [lastWrite] at h
  | cons w ws ih =>
    rw [lastWrite, Option.or_eq_some_iff] at h
    rcases h with h | ⟨-, h⟩
    · exact List.mem_cons_of_mem _ (ih h)
    · split_ifs at h with hk
      obtain rfl : w.2 = v := by simpa using h
      exact List.mem_cons.mpr (Or.inl (by rw [← hk]))

/-- If all writes to a key have the same value, this is the last. -/
theorem lastWrite_eq_some_of_forall {ws : List (κ × α)} {k : κ} {v : α} (hmem : (k, v) ∈ ws)
    (h : ∀ w ∈ ws, w.1 = k → w.2 = v) : lastWrite ws k = some v := by
  cases hlast : lastWrite ws k with
  | none => exact absurd (List.mem_map_of_mem hmem) (lastWrite_eq_none_iff.mp hlast)
  | some v' => rw [← h _ (mem_of_lastWrite_eq_some hlast) rfl]

/-- Writes at other keys do not matter. -/
theorem lastWrite_flatMap_filter {ι : Type} (f : ι → List (κ × α)) (p : ι → Bool) (is : List ι) {k : κ}
    (h : ∀ i ∈ is, p i = false → k ∉ (f i).map Prod.fst) :
    lastWrite ((is.filter p).flatMap f) k = lastWrite (is.flatMap f) k := by
  induction is with
  | nil => rfl
  | cons i is ih =>
    have hrest := ih fun j hj => h j (List.mem_cons_of_mem _ hj)
    rw [List.flatMap_cons, lastWrite_append, ← hrest]
    cases hp : p i with
    | true => rw [List.filter_cons_of_pos hp, List.flatMap_cons, lastWrite_append]
    | false =>
      rw [List.filter_cons_of_neg (by simp [hp]),
        lastWrite_eq_none_iff.mpr (h i List.mem_cons_self hp), Option.or_none]

end LastWrite

namespace Store

variable [DecidableEq κ] (S : Store σ κ α)

/-- Carry out a sequence of writes. -/
def putAll (s : σ) (ws : List (κ × α)) : σ := ws.foldl (fun s w => S.put s w.1 w.2) s

@[simp] theorem putAll_nil (s : σ) : S.putAll s [] = s := rfl

@[simp] theorem putAll_cons (s : σ) (w : κ × α) (ws : List (κ × α)) :
    S.putAll s (w :: ws) = S.putAll (S.put s w.1 w.2) ws := rfl

theorem putAll_append (s : σ) (ws vs : List (κ × α)) :
    S.putAll s (ws ++ vs) = S.putAll (S.putAll s ws) vs := by
  simp [putAll, List.foldl_append]

/-- What a sequence of writes leaves at `k`: its last write there, or what was there before. -/
theorem get_putAll (s : σ) (ws : List (κ × α)) (k : κ) :
    S.get (S.putAll s ws) k = (S.get s k).map fun v => (lastWrite ws k).getD v := by
  induction ws generalizing s with
  | nil => simp [lastWrite]
  | cons w ws ih =>
    rw [putAll_cons, ih, S.get_put, lastWrite]
    by_cases h : k = w.1
    · cases hg : S.get s k with
      | none => simp [h]
      | some v => cases lastWrite ws k <;> simp [← h]
    · cases hg : S.get s k with
      | none => simp [h]
      | some v => simp [h, Ne.symm h]

theorem get_putAll_of_notMem {s : σ} {ws : List (κ × α)} {k : κ} (h : k ∉ ws.map Prod.fst) :
    S.get (S.putAll s ws) k = S.get s k := by
  rw [get_putAll, lastWrite_eq_none_iff.mpr h]
  simp

theorem isSome_get_putAll (s : σ) (ws : List (κ × α)) (k : κ) :
    (S.get (S.putAll s ws) k).isSome = (S.get s k).isSome := by
  rw [get_putAll, Option.isSome_map]

/-- Two sequences of writes have the same effect on `s` exactly if at every key of `s` they leave
    the same value, the old one where a sequence does not write. -/
theorem putAll_eq_putAll_iff (s : σ) (ws vs : List (κ × α)) :
    S.putAll s ws = S.putAll s vs ↔
      ∀ k v, S.get s k = some v → (lastWrite ws k).getD v = (lastWrite vs k).getD v := by
  constructor
  · intro h k v hk
    have := congrArg (fun t => S.get t k) h
    simpa [get_putAll, hk] using this
  · intro h
    refine S.ext _ _ fun k => ?_
    rw [get_putAll, get_putAll]
    cases hk : S.get s k with
    | none => rfl
    | some v => simp [h k v hk]

/-- Carrying out a sequence of writes once more changes nothing. -/
theorem putAll_putAll_self (s : σ) (ws : List (κ × α)) :
    S.putAll (S.putAll s ws) ws = S.putAll s ws := by
  rw [← putAll_append, putAll_eq_putAll_iff]
  intro k v _
  rw [lastWrite_append, Option.or_self]

/-- Two sequences of writes commute if at every key at most one of them writes, or both write the
    same. -/
theorem putAll_comm {s : σ} {ws vs : List (κ × α)}
    (h : ∀ k, lastWrite ws k = none ∨ lastWrite vs k = none ∨ lastWrite ws k = lastWrite vs k) :
    S.putAll (S.putAll s ws) vs = S.putAll (S.putAll s vs) ws := by
  rw [← putAll_append, ← putAll_append, putAll_eq_putAll_iff]
  intro k v _
  rw [lastWrite_append, lastWrite_append]
  rcases h k with hk | hk | hk
  · simp [hk]
  · simp [hk]
  · simp [hk]

end Store

/-- The elements of a list, written by position. -/
def listStore (α : Type) : Store (List α) Nat α where
  get xs k := xs[k]?
  put xs k v := xs.set k v
  get_put := by
    intro xs k v j
    rw [List.getElem?_set]
    by_cases h : j = k
    · subst h
      by_cases hlt : j < xs.length
      · simp [hlt]
      · simp [hlt]
    · simp [h, Ne.symm h]
  ext := fun _ _ h => List.ext_getElem? h

theorem length_listStore_putAll (xs : List α) (ws : List (Nat × α)) :
    ((listStore α).putAll xs ws).length = xs.length := by
  induction ws generalizing xs with
  | nil => rfl
  | cons w ws ih => rw [Store.putAll_cons, ih]; simp [listStore]

/-- The entries of a finite map, written only at keys that are already there. -/
def mapStore (κ α : Type) [DecidableEq κ] : Store (Finmap fun _ : κ => α) κ α where
  get m k := m.lookup k
  put m k v := if k ∈ m then m.insert k v else m
  get_put := by
    intro m k v j
    by_cases hk : k ∈ m
    · rw [if_pos hk]
      by_cases h : j = k
      · subst h
        obtain ⟨u, hu⟩ := Finmap.mem_iff.mp hk
        simp [hu]
      · rw [if_neg h, Finmap.lookup_insert_of_ne _ h]
    · rw [if_neg hk]
      by_cases h : j = k
      · subst h
        rw [if_pos rfl, Finmap.lookup_eq_none.mpr hk]
        rfl
      · rw [if_neg h]
  ext := fun _ _ h => Finmap.ext_lookup h

end FixedStore
