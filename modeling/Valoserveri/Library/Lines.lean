import Mathlib.Data.List.Basic
import Mathlib.Data.List.TakeWhile

/-!
# Lines of bounded length

A text is read line by line into a buffer for `n` elements: a line ends behind its first separator, or
where the buffer is full. The lines of a text are the pieces in which it is read.
-/

namespace Lines

variable {α : Type} [DecidableEq α]

/-- The number of elements of the first line, if there are as many. -/
def lineLength (sep : α) (n : Nat) (text : List α) : Nat :=
  min n ((text.takeWhile (· ≠ sep)).length + 1)

/-- The lines of a text. -/
def lines (sep : α) (n : Nat) (text : List α) : List (List α) :=
  if text = [] ∨ n = 0 then []
  else
    text.take (lineLength sep n text) :: lines sep n (text.drop (lineLength sep n text))
termination_by text.length
decreasing_by
  rename_i h
  have hlength : text.length ≠ 0 := fun hzero => h (Or.inl (List.eq_nil_of_length_eq_zero hzero))
  have hpos : n ≠ 0 := fun hzero => h (Or.inr hzero)
  rw [List.length_drop]
  unfold lineLength
  omega

variable {sep : α} {n : Nat}

theorem forall_ne_sep {line : List α} (h : sep ∉ line) : ∀ c ∈ line, decide (c ≠ sep) = true := by
  intro c hc
  exact decide_eq_true fun heq => h (heq ▸ hc)

theorem takeWhile_append_sep {line : List α} (h : sep ∉ line) (rest : List α) :
    (line ++ sep :: rest).takeWhile (· ≠ sep) = line := by
  rw [List.takeWhile_append_of_pos (forall_ne_sep h), List.takeWhile_cons_of_neg (by simp),
    List.append_nil]

theorem lineLength_pos (sep : α) (hn : 0 < n) (text : List α) : 0 < lineLength sep n text := by
  unfold lineLength
  omega

@[simp]
theorem lines_nil : lines sep n [] = [] := by
  rw [lines, if_pos (Or.inl rfl)]

theorem lines_of_ne_nil (hn : 0 < n) {text : List α} (h : text ≠ []) :
    lines sep n text =
      text.take (lineLength sep n text) :: lines sep n (text.drop (lineLength sep n text)) := by
  rw [lines, if_neg]
  rintro (hnil | hzero)
  · exact h hnil
  · omega

/-- A line that fits in the buffer with its separator. -/
theorem lines_append_sep {line : List α} (h : sep ∉ line) (hlength : line.length < n)
    (rest : List α) : lines sep n (line ++ sep :: rest) = (line ++ [sep]) :: lines sep n rest := by
  have hcut : lineLength sep n (line ++ sep :: rest) = (line ++ [sep]).length := by
    unfold lineLength
    rw [takeWhile_append_sep h, List.length_append, List.length_singleton]
    omega
  rw [lines_of_ne_nil (by omega) (by simp), hcut, List.append_cons line sep rest, List.take_left,
    List.drop_left]

/-- A full buffer. -/
theorem lines_append_full (hn : 0 < n) {piece : List α} (h : sep ∉ piece) (hlength : piece.length = n)
    (rest : List α) : lines sep n (piece ++ rest) = piece :: lines sep n rest := by
  have hcut : lineLength sep n (piece ++ rest) = piece.length := by
    unfold lineLength
    rw [List.takeWhile_append_of_pos (forall_ne_sep h), List.length_append]
    omega
  have hne : piece ++ rest ≠ [] := by
    intro hnil
    rw [List.append_eq_nil_iff] at hnil
    rw [hnil.1, List.length_nil] at hlength
    omega
  rw [lines_of_ne_nil hn hne, hcut, List.take_left, List.drop_left]

/-- The last line of a text need not end with a separator. -/
theorem lines_of_notMem {line : List α} (h : sep ∉ line) (hne : line ≠ []) (hlength : line.length ≤ n) :
    lines sep n line = [line] := by
  have hpos : line.length ≠ 0 := fun hzero => hne (List.eq_nil_of_length_eq_zero hzero)
  have hcut : line.length ≤ lineLength sep n line := by
    unfold lineLength
    rw [List.takeWhile_eq_self_iff.mpr (forall_ne_sep h)]
    omega
  rw [lines_of_ne_nil (by omega) hne, List.take_of_length_le hcut, List.drop_eq_nil_of_le hcut,
    lines_nil]

theorem lineLength_append_sep_cons (text rest : List α) :
    lineLength sep n (text ++ sep :: rest) = lineLength sep n (text ++ [sep]) := by
  have htake : (text ++ sep :: rest).takeWhile (· ≠ sep) = (text ++ [sep]).takeWhile (· ≠ sep) := by
    rw [List.takeWhile_append, List.takeWhile_append, List.takeWhile_cons_of_neg (by simp),
      List.takeWhile_cons_of_neg (by simp)]
  unfold lineLength
  rw [htake]

theorem lineLength_le (n : Nat) (sep : α) (text : List α) :
    lineLength sep n (text ++ [sep]) ≤ text.length + 1 := by
  obtain ⟨line, rest, htext, hline⟩ := List.eq_append_cons_of_mem (List.mem_append_right text
    (List.mem_singleton_self sep))
  have hlength : text.length + 1 = line.length + 1 + rest.length := by
    have := congrArg List.length htext
    simp only [List.length_append, List.length_cons, List.length_nil] at this
    omega
  unfold lineLength
  rw [htext, takeWhile_append_sep hline]
  omega

/-- Reading starts afresh behind every separator. -/
theorem lines_append_cons (hn : 0 < n) (text rest : List α) :
    lines sep n (text ++ sep :: rest) = lines sep n (text ++ [sep]) ++ lines sep n rest := by
  induction hsize : text.length using Nat.strong_induction_on generalizing text with
  | _ size ih =>
    subst hsize
    have hpos := lineLength_pos sep hn (text ++ [sep])
    have hle := lineLength_le n sep text
    have hne : text ++ [sep] ≠ [] := by simp
    rw [lines_of_ne_nil hn (by simp), lines_of_ne_nil hn hne, lineLength_append_sep_cons,
      List.cons_append]
    generalize lineLength sep n (text ++ [sep]) = k at hpos hle ⊢
    by_cases hk : k ≤ text.length
    · -- the first line is cut out of `text`
      have hshort : (text.drop k).length < text.length := by
        rw [List.length_drop]
        omega
      rw [List.take_append_of_le_length hk, List.take_append_of_le_length hk,
        List.drop_append_of_le_length hk, List.drop_append_of_le_length hk,
        ih _ hshort (text.drop k) rfl]
    · -- `text` is the first line
      obtain rfl : k = (text ++ [sep]).length := by
        rw [List.length_append, List.length_singleton]
        omega
      rw [List.append_cons text sep rest, List.take_left, List.drop_left, List.take_length,
        List.drop_length, lines_nil, List.nil_append]

/-- How lines change when a separator is written behind them: it ends the last line, or is a line of its
    own. -/
def Ended (sep : α) (ls ls' : List (List α)) : Prop :=
  ls' = ls ++ [[sep]] ∨ ∃ before line, ls = before ++ [line] ∧ ls' = before ++ [line ++ [sep]]

omit [DecidableEq α] in
theorem Ended.append {ls ls' : List (List α)} (head : List (List α)) (h : Ended sep ls ls') :
    Ended sep (head ++ ls) (head ++ ls') := by
  rcases h with rfl | ⟨before, line, rfl, rfl⟩
  · exact Or.inl (List.append_assoc _ _ _).symm
  · exact Or.inr ⟨head ++ before, line, (List.append_assoc _ _ _).symm, (List.append_assoc _ _ _).symm⟩

theorem lines_concat (hn : 0 < n) (text : List α) :
    Ended sep (lines sep n text) (lines sep n (text ++ [sep])) := by
  induction hsize : text.length using Nat.strong_induction_on generalizing text with
  | _ size ih =>
    subst hsize
    by_cases hmem : sep ∈ text
    · obtain ⟨head, rest, htext, -⟩ := List.eq_append_cons_of_mem hmem
      have hshort : rest.length < text.length := by
        rw [htext, List.length_append, List.length_cons]
        omega
      have hconcat : text ++ [sep] = head ++ sep :: (rest ++ [sep]) := by
        rw [htext, List.append_assoc, List.cons_append]
      rw [hconcat, htext, lines_append_cons hn, lines_append_cons hn head (rest ++ [sep])]
      exact (ih _ hshort rest rfl).append _
    · rcases Nat.lt_or_ge text.length n with hlt | hge
      · -- the text is at most one line, with room for the separator
        rw [lines_append_sep hmem hlt, lines_nil]
        by_cases hnil : text = []
        · exact Or.inl (by rw [hnil, lines_nil, List.nil_append, List.nil_append])
        · refine Or.inr ⟨[], text, ?_, rfl⟩
          rw [lines_of_notMem hmem hnil (Nat.le_of_lt hlt), List.nil_append]
      · have hfull : (text.take n).length = n := by
          rw [List.length_take]
          omega
        have hpiece : sep ∉ text.take n := fun h => hmem (List.mem_of_mem_take h)
        have hshort : (text.drop n).length < text.length := by
          rw [List.length_drop]
          omega
        have hsplit : text = text.take n ++ text.drop n := (List.take_append_drop n text).symm
        have hconcat : text ++ [sep] = text.take n ++ (text.drop n ++ [sep]) := by
          rw [← List.append_assoc, ← hsplit]
        rw [hconcat, lines_append_full hn hpiece hfull]
        nth_rewrite 1 [hsplit]
        rw [lines_append_full hn hpiece hfull]
        exact (ih _ hshort _ rfl).append [text.take n]

/-- The first line has a separator at most at its end. -/
theorem take_lineLength (n : Nat) (text : List α) :
    ∃ body, sep ∉ body ∧ (text.take (lineLength sep n text) = body ∨
      text.take (lineLength sep n text) = body ++ [sep]) := by
  by_cases hmem : sep ∈ text
  · obtain ⟨line, rest, rfl, hline⟩ := List.eq_append_cons_of_mem hmem
    unfold lineLength
    rw [takeWhile_append_sep hline]
    rcases Nat.lt_or_ge line.length n with hlt | hge
    · rw [Nat.min_eq_right hlt]
      refine ⟨line, hline, Or.inr ?_⟩
      rw [List.append_cons]
      exact List.take_left' (by simp)
    · rw [Nat.min_eq_left (by omega), List.take_append_of_le_length hge]
      exact ⟨line.take n, fun h => hline (List.mem_of_mem_take h), Or.inl rfl⟩
  · exact ⟨_, fun h => hmem (List.mem_of_mem_take h), Or.inl rfl⟩

/-- A line has a separator at most at its end, and is no longer than the buffer. -/
theorem mem_lines {text line : List α} (h : line ∈ lines sep n text) :
    line.length ≤ n ∧ ∃ body, sep ∉ body ∧ (line = body ∨ line = body ++ [sep]) := by
  induction hsize : text.length using Nat.strong_induction_on generalizing text with
  | _ size ih =>
    subst hsize
    by_cases hempty : text = [] ∨ n = 0
    · rw [lines, if_pos hempty] at h
      exact absurd h List.not_mem_nil
    · rw [lines, if_neg hempty] at h
      rw [not_or] at hempty
      have hpos := lineLength_pos sep (Nat.pos_of_ne_zero hempty.2) text
      have hlength := List.length_pos_iff.mpr hempty.1
      rcases List.mem_cons.mp h with rfl | hrest
      · refine ⟨?_, take_lineLength n text⟩
        rw [List.length_take]
        unfold lineLength
        omega
      · refine ih _ ?_ hrest rfl
        rw [List.length_drop]
        omega

end Lines
