import Valoserveri.Config
import Valoserveri.Library.ExceptRun
import Valoserveri.Library.Segments

/-!
# Splitting a value at its commas

`Config::getList` cuts the value at its first comma, again and again. It ends after one pass for each
comma and one more, and has then found the segments between the commas.
-/

namespace Valoserveri

open ExceptRun Segments

/-! ## Strings -/

theorem findFirstOf_append_cons {head : StdString} {c : Int8} (h : c ∉ head) (rest : StdString) :
    findFirstOf (head ++ c :: rest) c = some head.length := by
  unfold findFirstOf
  rw [List.findIdx?_append, List.findIdx?_eq_none_iff.mpr]
  · simp [List.findIdx?_cons]
  · intro d hd
    exact decide_eq_false fun heq => h (heq ▸ hd)

theorem findFirstOf_eq_none {text : StdString} {c : Int8} (h : c ∉ text) :
    findFirstOf text c = none := by
  refine List.findIdx?_eq_none_iff.mpr fun d hd => ?_
  exact decide_eq_false fun heq => h (heq ▸ hd)

theorem substr_head (head rest : StdString) :
    substr (head ++ rest) 0 (some head.length) = .ok head := by
  unfold substr
  rw [if_neg (Nat.not_lt_zero _)]
  simp

theorem substr_behind (head : StdString) (c : Int8) (rest : StdString) :
    substr (head ++ c :: rest) (head.length + 1) none = .ok rest := by
  have hlength : (head ++ c :: rest).length = head.length + 1 + rest.length := by
    rw [List.length_append, List.length_cons]
    omega
  have hdrop : (head ++ c :: rest).drop (head.length + 1) = rest := by
    rw [List.append_cons]
    exact List.drop_left' (by simp)
  unfold substr
  rw [if_neg (by omega), hdrop]
  show Except.ok (rest.take (head ++ c :: rest).length) = .ok rest
  rw [List.take_of_length_le (by omega)]

/-! ## The loop -/

/-- The loop appends the segments of what is left, if it is given a pass for each comma and one more. -/
theorem getListLoop_eq (raw : StdString) (passes : Nat) (result : List StdString)
    (hpasses : raw.count 44 < passes) :
    getListLoop passes raw result = .ok (result ++ segments 44 raw) := by
  induction raw using cut_induction (44 : Int8) generalizing passes result with
  | hfree raw hfree =>
    obtain ⟨passes, rfl⟩ : ∃ n, passes = n + 1 := ⟨passes - 1, by omega⟩
    rw [getListLoop, findFirstOf_eq_none hfree, segments_of_notMem hfree]
    by_cases hempty : raw = []
    · simp [hempty]
    · simp [hempty]
  | hcut head rest hhead ih =>
    obtain ⟨passes, rfl⟩ : ∃ n, passes = n + 1 := ⟨passes - 1, by omega⟩
    have hcount : rest.count 44 < passes := by
      rw [List.count_append, List.count_cons_self] at hpasses
      omega
    rw [getListLoop, findFirstOf_append_cons hhead, segments_append_cons, segments_of_notMem hhead]
    by_cases hempty : head = []
    · subst hempty
      have hrest := substr_behind [] 44 rest
      simp only [List.length_nil, List.nil_append] at hrest ⊢
      rw [if_neg (by simp), ok_bind, hrest, ok_bind, ih passes result hcount]
      simp
    · have hne : head.length ≠ 0 := fun h => hempty (List.eq_nil_of_length_eq_zero h)
      simp only [if_pos hne, if_neg hempty]
      rw [substr_head, ok_bind, ok_bind, substr_behind, ok_bind, ih passes _ hcount, List.append_assoc]

theorem getList_eq (config : Config) (section_ key : StdString) :
    config.getList section_ key = .ok (segments 44 (config.get section_ key [])) := by
  unfold Config.getList
  simp only
  by_cases hempty : config.get section_ key [] = []
  · rw [if_pos hempty, hempty, segments_nil]
  · rw [if_neg hempty, getListLoop_eq _ _ _ (Nat.lt_succ_of_le List.count_le_length), List.nil_append]

/-- The loop ends, and has found the non-empty maximal parts of the value without a comma, in order. So
    a list of such parts comes back from its text, however many commas are put before, between and
    behind them. -/
theorem getList_segments (config : Config) (section_ key : StdString) :
    let value := config.get section_ key []
    ∃ (items : List StdString) (ps : List (Nat × Nat)), config.getList section_ key = .ok items ∧
      (∀ passes, value.count 44 < passes → getListLoop passes value [] = .ok items) ∧
      ps.Pairwise (fun p q => p.2 < q.1) ∧ (∀ a b, (a, b) ∈ ps ↔ IsSegment 44 value a b) ∧
      items = ps.map (fun p => (value.drop p.1).take (p.2 - p.1)) ∧
      (∀ parts : List StdString, (∀ part ∈ parts, part ≠ [] ∧ 44 ∉ part) →
        value = [44].intercalate parts → items = parts) ∧
      ∀ (before : Nat) (parts : List (StdString × Nat)), (∀ part ∈ parts, part.1 ≠ [] ∧ 44 ∉ part.1) →
        value = List.replicate before 44 ++ spaced 44 parts → items = parts.map Prod.fst := by
  intro value
  obtain ⟨ps, hsorted, hmem, hslices⟩ := segments_eq_map_slices 44 value
  refine ⟨segments 44 value, ps, getList_eq config section_ key, fun passes hpasses => ?_, hsorted, hmem,
    hslices, ?_, ?_⟩
  · rw [getListLoop_eq value passes [] hpasses, List.nil_append]
  · intro parts hparts hvalue
    have hspaced := segments_spaced (parts.map fun part => (part, 0)) (by simpa using hparts)
    rw [spaced_eq_intercalate, ← hvalue] at hspaced
    rw [hspaced, List.map_map]
    exact List.map_id _
  · intro before parts hparts hvalue
    rw [hvalue, segments_replicate_append, segments_spaced parts hparts]

/-- A value with commas before, between and behind its items. -/
example : (Config.ofEntries [("a=b", ",x,,yz,")]).getList (lit "a") (lit "b") = .ok [lit "x", lit "yz"] := by
  decide

end Valoserveri
