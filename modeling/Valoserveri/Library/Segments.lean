import Mathlib.Data.List.Basic

/-!
# The segments of a text between separators

A text is cut at its separators, and empty pieces are dropped. What is left are the maximal parts of
the text without a separator, in order, however many separators stand between them.
-/

namespace Segments

variable {α : Type} {sep : α}

/-- The non-empty pieces of a text between its separators. -/
def segments [DecidableEq α] (sep : α) (text : List α) : List (List α) :=
  (text.splitOn sep).filter fun s => s ≠ []

/-- The text from position `a` up to position `b` is a segment: it is not empty, has no separator and
    cannot be extended without taking one in. -/
structure IsSegment (sep : α) (text : List α) (a b : Nat) : Prop where
  lt : a < b
  le_length : b ≤ text.length
  free : ∀ i, a ≤ i → i < b → text[i]? ≠ some sep
  left : a = 0 ∨ text[a - 1]? = some sep
  right : b = text.length ∨ text[b]? = some sep

/-- Items with a separator behind each but the last, and `extra` more behind every item. -/
def spaced (sep : α) : List (List α × Nat) → List α
  | [] => []
  | [(item, extra)] => item ++ List.replicate extra sep
  | (item, extra) :: rest => item ++ List.replicate (extra + 1) sep ++ spaced sep rest

/-- A text has no separator, or it is cut at its first one. -/
theorem cut_induction (sep : α) {P : List α → Prop} (hfree : ∀ text, sep ∉ text → P text)
    (hcut : ∀ head rest, sep ∉ head → P rest → P (head ++ sep :: rest)) (text : List α) : P text := by
  induction hn : text.length using Nat.strongRecOn generalizing text with
  | ind n ih =>
    by_cases hsep : sep ∈ text
    · obtain ⟨head, rest, rfl, hhead⟩ := List.eq_append_cons_of_mem hsep
      have hlt : rest.length < n := by
        rw [← hn, List.length_append, List.length_cons]
        omega
      exact hcut head rest hhead (ih rest.length hlt rest rfl)
    · exact hfree text hsep

/-! ## Pieces -/

section Pieces

variable [DecidableEq α]

theorem segments_append_cons (sep : α) (xs ys : List α) :
    segments sep (xs ++ sep :: ys) = segments sep xs ++ segments sep ys := by
  unfold segments
  rw [List.splitOn_append_cons_self, List.filter_append]

theorem segments_nil (sep : α) : segments sep [] = [] := by
  simp [segments]

theorem segments_of_notMem {text : List α} (h : sep ∉ text) :
    segments sep text = if text = [] then [] else [text] := by
  have hsplit : text.splitOn sep = [text] := by
    refine List.splitOnP_eq_singleton fun x hx => ?_
    exact beq_eq_false_iff_ne.mpr fun heq => h (heq ▸ hx)
  unfold segments
  rw [hsplit]
  by_cases hempty : text = []
  · simp [hempty]
  · simp [hempty]

theorem segments_replicate_append (sep : α) (n : Nat) (text : List α) :
    segments sep (List.replicate n sep ++ text) = segments sep text := by
  induction n with
  | zero => rfl
  | succ n ih =>
    have hfirst := segments_append_cons sep [] (List.replicate n sep ++ text)
    rw [segments_nil, List.nil_append, List.nil_append, ih] at hfirst
    exact hfirst

/-- Any number of separators may stand before, between and behind the items. -/
theorem segments_spaced (items : List (List α × Nat)) (h : ∀ e ∈ items, e.1 ≠ [] ∧ sep ∉ e.1) :
    segments sep (spaced sep items) = items.map Prod.fst := by
  induction items with
  | nil => exact segments_nil sep
  | cons e items ih =>
    obtain ⟨item, extra⟩ := e
    obtain ⟨hne, hfree⟩ := h (item, extra) (by simp)
    have hitem : segments sep item = [item] := by rw [segments_of_notMem hfree, if_neg hne]
    -- the separators behind the item
    have hbehind : ∀ n text, segments sep (item ++ List.replicate (n + 1) sep ++ text) =
        item :: segments sep text := by
      intro n text
      rw [List.append_assoc, List.replicate_succ, List.cons_append, segments_append_cons, hitem,
        segments_replicate_append]
      rfl
    cases items with
    | nil =>
      cases extra with
      | zero => simpa [spaced] using hitem
      | succ extra =>
        have hlast := hbehind extra []
        rw [List.append_nil, segments_nil] at hlast
        exact hlast
    | cons next items =>
      have htail := ih fun e' he' => h e' (List.mem_cons_of_mem _ he')
      show segments sep (item ++ List.replicate (extra + 1) sep ++ spaced sep (next :: items)) = _
      rw [hbehind, htail]
      rfl

end Pieces

theorem spaced_eq_intercalate (sep : α) (items : List (List α)) :
    spaced sep (items.map fun item => (item, 0)) = [sep].intercalate items := by
  induction items with
  | nil => rfl
  | cons item items ih =>
    cases items with
    | nil => simp [spaced]
    | cons next items =>
      show item ++ List.replicate 1 sep ++ spaced sep ((next :: items).map fun item => (item, 0)) = _
      rw [ih]
      simp [List.intercalate]

/-! ## Positions -/

theorem isSegment_of_notMem {text : List α} (h : sep ∉ text) {a b : Nat} :
    IsSegment sep text a b ↔ text ≠ [] ∧ a = 0 ∧ b = text.length := by
  have hnone : ∀ i, text[i]? ≠ some sep := fun i hi => h (List.mem_of_getElem? hi)
  constructor
  · intro hseg
    have ha : a = 0 := hseg.left.resolve_right (hnone _)
    have hb : b = text.length := hseg.right.resolve_right (hnone _)
    refine ⟨?_, ha, hb⟩
    rintro rfl
    have hlt := hseg.lt
    rw [hb] at hlt
    exact absurd hlt (Nat.not_lt_zero a)
  · rintro ⟨hne, rfl, rfl⟩
    exact ⟨List.length_pos_iff.mpr hne, Nat.le_refl _, fun i _ _ => hnone i, Or.inl rfl, Or.inl rfl⟩

/-- The segments of a text that is cut at its first separator. -/
theorem isSegment_append_cons {head rest : List α} (h : sep ∉ head) {a b : Nat} :
    IsSegment sep (head ++ sep :: rest) a b ↔
      (head ≠ [] ∧ a = 0 ∧ b = head.length) ∨
        ∃ a' b', IsSegment sep rest a' b' ∧ a = head.length + 1 + a' ∧ b = head.length + 1 + b' := by
  have hhead : ∀ i, i < head.length → (head ++ sep :: rest)[i]? ≠ some sep := by
    intro i hi heq
    rw [List.getElem?_append_left hi] at heq
    exact h (List.mem_of_getElem? heq)
  have hsep : (head ++ sep :: rest)[head.length]? = some sep := by simp
  have hrest : ∀ i, (head ++ sep :: rest)[head.length + 1 + i]? = rest[i]? := by
    intro i
    rw [List.getElem?_append_right (by omega), show head.length + 1 + i - head.length = i + 1 by omega]
    exact List.getElem?_cons_succ
  have hlength : (head ++ sep :: rest).length = head.length + 1 + rest.length := by
    rw [List.length_append, List.length_cons]
    omega
  constructor
  · intro hseg
    have hlt := hseg.lt
    by_cases hb : b ≤ head.length
    · -- nothing but the head lies before the separator
      left
      have hb' : b = head.length := by
        by_contra hne
        rcases hseg.right with hlast | hend
        · omega
        · exact hhead b (by omega) hend
      have ha : a = 0 := by
        rcases hseg.left with ha | hstart
        · exact ha
        · exact absurd hstart (hhead (a - 1) (by omega))
      refine ⟨?_, ha, hb'⟩
      rintro rfl
      rw [hb'] at hlt
      exact absurd hlt (Nat.not_lt_zero a)
    · -- the segment does not take the separator in
      right
      have ha : head.length < a := by
        by_contra hle
        exact hseg.free head.length (by omega) (by omega) hsep
      refine ⟨a - (head.length + 1), b - (head.length + 1), ⟨by omega, ?_, ?_, ?_, ?_⟩, by omega,
        by omega⟩
      · have hle := hseg.le_length
        omega
      · intro i hai hib
        rw [← hrest i]
        exact hseg.free _ (by omega) (by omega)
      · by_cases hfirst : a = head.length + 1
        · exact Or.inl (by omega)
        · refine Or.inr ?_
          have hstart := hseg.left.resolve_left (by omega)
          rw [← hrest, ← hstart]
          congr 1
          omega
      · rcases hseg.right with hend | hend
        · exact Or.inl (by omega)
        · refine Or.inr ?_
          rw [← hrest, ← hend]
          congr 1
          omega
  · rintro (⟨hne, rfl, rfl⟩ | ⟨a', b', hseg, rfl, rfl⟩)
    · refine ⟨List.length_pos_iff.mpr hne, by omega, fun i _ hi => hhead i hi, Or.inl rfl, Or.inr hsep⟩
    · have hlt := hseg.lt
      have hle := hseg.le_length
      refine ⟨by omega, by omega, ?_, ?_, ?_⟩
      · intro i hai hib
        obtain ⟨j, rfl⟩ : ∃ j, i = head.length + 1 + j := ⟨i - (head.length + 1), by omega⟩
        rw [hrest]
        exact hseg.free j (by omega) (by omega)
      · refine Or.inr ?_
        rcases hseg.left with rfl | hstart
        · exact hsep
        · have hpos : a' ≠ 0 := by
            rintro rfl
            exact hseg.free 0 (Nat.le_refl _) hlt hstart
          rw [← hrest] at hstart
          rw [← hstart]
          congr 1
          omega
      · rcases hseg.right with rfl | hend
        · exact Or.inl hlength.symm
        · exact Or.inr ((hrest b').trans hend)

/-- The pieces are the segments of the text, in their order. -/
theorem segments_eq_map_slices [DecidableEq α] (sep : α) (text : List α) :
    ∃ ps : List (Nat × Nat), ps.Pairwise (fun p q => p.2 < q.1) ∧
      (∀ a b, (a, b) ∈ ps ↔ IsSegment sep text a b) ∧
      segments sep text = ps.map fun p => (text.drop p.1).take (p.2 - p.1) := by
  induction text using cut_induction sep with
  | hfree text hfree =>
    rw [segments_of_notMem hfree]
    by_cases hempty : text = []
    · refine ⟨[], .nil, fun a b => ?_, by rw [if_pos hempty]; rfl⟩
      rw [isSegment_of_notMem hfree]
      simp [hempty]
    · refine ⟨[(0, text.length)], List.pairwise_singleton _ _, fun a b => ?_, ?_⟩
      · rw [isSegment_of_notMem hfree]
        simp [hempty]
      · rw [if_neg hempty]
        simp
  | hcut head rest hhead ih =>
    obtain ⟨ps, hsorted, hmem, hslices⟩ := ih
    let shifted := ps.map fun p => (head.length + 1 + p.1, head.length + 1 + p.2)
    have hshifted : shifted.Pairwise fun p q => p.2 < q.1 := by
      refine List.pairwise_map.mpr (hsorted.imp fun h => ?_)
      show head.length + 1 + _ < head.length + 1 + _
      omega
    have hmem' : ∀ a b, (a, b) ∈ shifted ↔
        ∃ a' b', IsSegment sep rest a' b' ∧ a = head.length + 1 + a' ∧ b = head.length + 1 + b' := by
      intro a b
      rw [List.mem_map]
      constructor
      · rintro ⟨⟨a', b'⟩, hp, heq⟩
        obtain ⟨rfl, rfl⟩ := Prod.mk.inj heq
        exact ⟨a', b', (hmem a' b').mp hp, rfl, rfl⟩
      · rintro ⟨a', b', hseg, rfl, rfl⟩
        exact ⟨(a', b'), (hmem a' b').mpr hseg, rfl⟩
    have hslices' : segments sep rest =
        shifted.map fun p => ((head ++ sep :: rest).drop p.1).take (p.2 - p.1) := by
      rw [hslices, List.map_map]
      refine List.map_congr_left fun p _ => ?_
      have hdrop : (head ++ sep :: rest).drop (head.length + 1 + p.1) = rest.drop p.1 := by
        rw [← List.drop_drop, List.append_cons, List.drop_left' (by simp)]
      show _ = ((head ++ sep :: rest).drop (head.length + 1 + p.1)).take
        (head.length + 1 + p.2 - (head.length + 1 + p.1))
      rw [hdrop, Nat.add_sub_add_left]
    rw [segments_append_cons, segments_of_notMem hhead]
    by_cases hempty : head = []
    · refine ⟨shifted, hshifted, fun a b => ?_, by rw [if_pos hempty]; exact hslices'⟩
      rw [isSegment_append_cons hhead, hmem']
      simp [hempty]
    · refine ⟨(0, head.length) :: shifted, List.pairwise_cons.mpr ⟨?_, hshifted⟩, fun a b => ?_, ?_⟩
      · intro p hp
        obtain ⟨q, -, rfl⟩ := List.mem_map.mp hp
        show head.length < head.length + 1 + q.1
        omega
      · rw [isSegment_append_cons hhead, List.mem_cons, hmem', Prod.mk.injEq]
        simp [hempty]
      · rw [if_neg hempty, hslices', List.map_cons, List.drop_zero, Nat.sub_zero, List.take_left']
        · rfl
        · rfl

end Segments
