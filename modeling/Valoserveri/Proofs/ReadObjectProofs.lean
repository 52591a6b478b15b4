import Valoserveri.MonitorPage
import Valoserveri.Proofs.JsonProofs

/-!
# Reading a dumped object

`readObject` gives back every object of safe strings and unsigned numbers from its text.
-/

namespace Valoserveri

open ExceptRun

/-! ## Numbers and strings -/

/-- A number is the value of its numeral. -/
theorem digitsValue_stdToString (n : Nat) : digitsValue (stdToString n) = n := by
  have hfold : ∀ (ds : List Char) (m : Nat), (∀ d ∈ ds, 48 ≤ d.toNat ∧ d.toNat ≤ 57) →
      (ds.map fun c => Int8.ofNat c.toNat).foldl (fun n d => 10 * n + (d.toInt.toNat - 48)) m =
        Nat.ofDigitChars 10 ds m := by
    intro ds
    induction ds with
    | nil => intro m _; rfl
    | cons d ds ih =>
      intro m hds
      have hd := hds d (by simp)
      have hvalue : (Int8.ofNat d.toNat).toInt.toNat = d.toNat := by
        rw [Int8.toInt_ofNat_of_lt (by omega)]
        rfl
      rw [List.map_cons, List.foldl_cons, hvalue, ih _ fun e he => hds e (List.mem_cons_of_mem _ he),
        Nat.ofDigitChars_cons]
      rfl
  exact (hfold _ 0 fun d hd => toNat_of_mem_toDigits hd).trans Nat.ofDigitChars_ten_toDigits

@[simp] theorem expect_cons (c : Int8) (text : StdString) : expect c (c :: text) = some text := if_pos rfl

/-- The elements that are taken end where the first one is not. -/
theorem takeWhile_dropWhile_append {α : Type} {p : α → Bool} {as : List α} {b : α}
    (has : ∀ a ∈ as, p a = true) (hb : p b = false) (rest : List α) :
    (as ++ b :: rest).takeWhile p = as ∧ (as ++ b :: rest).dropWhile p = b :: rest := by
  constructor
  · rw [List.takeWhile_append_of_pos has, List.takeWhile_cons_of_neg (by simp [hb]), List.append_nil]
  · rw [List.dropWhile_append_of_pos has, List.dropWhile_cons_of_neg (by simp [hb])]

theorem readNumber_stdToString (n : Nat) {c : Int8} (hc : isDigit c = false) (rest : StdString) :
    readNumber (stdToString n ++ c :: rest) = some (n, c :: rest) := by
  have hne : stdToString n ≠ [] := by simp [stdToString]
  obtain ⟨htake, hdrop⟩ := takeWhile_dropWhile_append
    (fun d (hd : d ∈ stdToString n) => isDigit_of_mem_stdToString hd) hc rest
  unfold readNumber
  simp only [htake, hdrop, if_neg hne, digitsValue_stdToString]

theorem readString_safe {s : StdString} (hs : Safe s) (rest : StdString) :
    readString (34 :: (s ++ 34 :: rest)) = some (s, rest) := by
  have hquote : decide (SafeChar 34) = false := by decide
  obtain ⟨htake, hdrop⟩ := takeWhile_dropWhile_append (p := fun c => decide (SafeChar c))
    (fun c (hc : c ∈ s) => decide_eq_true (hs c hc)) hquote rest
  unfold readString
  rw [expect_cons, Option.bind_some, hdrop, expect_cons, Option.bind_some, htake]

/-- A numeral is no string. -/
theorem readString_stdToString (n : Nat) (rest : StdString) : readString (stdToString n ++ rest) = none := by
  cases hn : stdToString n with
  | nil => simp [stdToString] at hn
  | cons d ds =>
    have hd : isDigit d = true := isDigit_of_mem_stdToString (n := n) (by simp [hn])
    have hne : d ≠ 34 := by
      rintro rfl
      cases hd
    unfold readString expect
    rw [List.cons_append]
    simp only [if_neg hne, Option.bind_none]

theorem readValue_dump {value : JsonValue} {text : StdString} {c : Int8} (hc : isDigit c = false)
    (hsafe : ∀ s, value = .string s → Safe s) (h : value.dump = .ok text) (rest : StdString) :
    readValue (text ++ c :: rest) = some (value, c :: rest) := by
  unfold readValue
  cases value with
  | number n =>
    obtain rfl := Except.ok.inj h
    rw [readString_stdToString, readNumber_stdToString n hc]
    rfl
  | string s =>
    have hs := hsafe s rfl
    obtain rfl := Except.ok.inj (h.symm.trans (dumpString_safe hs))
    have hread := readString_safe hs (c :: rest)
    rw [List.cons_append, List.append_assoc, List.singleton_append, hread]

/-! ## Entries -/

theorem readEntry_dump {entry : StdString × JsonValue} {text : StdString} {c : Int8}
    (hc : isDigit c = false) (hkey : Safe entry.1) (hvalue : ∀ s, entry.2 = .string s → Safe s)
    (h : dumpEntry entry = .ok text) (rest : StdString) :
    readEntry (text ++ c :: rest) = some (entry, c :: rest) ∧ 0 < text.length := by
  unfold dumpEntry at h
  rw [dumpString_safe hkey, ok_bind] at h
  obtain ⟨value, hdump, h⟩ := except_bind_eq_ok.mp h
  obtain rfl := Except.ok.inj h
  refine ⟨?_, by simp⟩
  have htext : 34 :: (entry.1 ++ [34]) ++ 58 :: value ++ c :: rest =
      34 :: (entry.1 ++ 34 :: (58 :: (value ++ c :: rest))) := by simp
  unfold readEntry
  rw [htext, readString_safe hkey, Option.bind_some]
  simp only [expect_cons, Option.bind_some]
  rw [readValue_dump hc hvalue hdump, Option.bind_some]

/-- The entries are read up to the brace behind them. Every entry has a character at least, so the length
    of the text is fuel enough. -/
theorem readEntries_dump {j : Json} {text : StdString} (hne : j ≠ []) (hsafe : SafeJson j)
    (h : dumpEntries j = .ok text) :
    j.length ≤ text.length ∧ ∀ fuel, j.length ≤ fuel →
      readEntries fuel (text ++ [125]) = some (j, [125]) := by
  induction j generalizing text with
  | nil => exact absurd rfl hne
  | cons entry j ih =>
    obtain ⟨hkey, hvalue⟩ := hsafe entry (by simp)
    cases j with
    | nil =>
      obtain ⟨hread, hpos⟩ := readEntry_dump (c := 125) (by decide) hkey hvalue h []
      refine ⟨hpos, fun fuel hfuel => ?_⟩
      obtain ⟨fuel, rfl⟩ : ∃ m, fuel = m + 1 := ⟨fuel - 1, by simp at hfuel; omega⟩
      rw [readEntries, hread, Option.bind_some]
      rfl
    | cons next j =>
      obtain ⟨first, hfirst, h⟩ := except_bind_eq_ok.mp h
      obtain ⟨others, hothers, h⟩ := except_bind_eq_ok.mp h
      obtain rfl := Except.ok.inj h
      obtain ⟨hlength, hrest⟩ :=
        ih (by simp) (fun e he => hsafe e (List.mem_cons_of_mem _ he)) hothers
      obtain ⟨hread, hpos⟩ := readEntry_dump (c := 44) (by decide) hkey hvalue hfirst (others ++ [125])
      constructor
      · simp only [List.length_cons, List.length_append] at hlength ⊢
        omega
      · intro fuel hfuel
        obtain ⟨fuel, rfl⟩ : ∃ m, fuel = m + 1 := ⟨fuel - 1, by simp at hfuel; omega⟩
        have htail := hrest fuel (by simp at hfuel ⊢; omega)
        rw [readEntries, List.append_assoc, List.cons_append, hread, Option.bind_some]
        simp only [expect_cons]
        rw [htail, Option.bind_some]

/-- The reader inverts `dump` on objects of safe strings. -/
theorem readObject_dump {j : Json} {text : StdString} (hsafe : SafeJson j) (h : j.dump = .ok text) :
    readObject text = some j := by
  obtain ⟨entries, hentries, h⟩ := except_bind_eq_ok.mp h
  obtain rfl := Except.ok.inj h
  unfold readObject
  rw [expect_cons, Option.bind_some]
  by_cases hempty : j = []
  · subst hempty
    obtain rfl := Except.ok.inj hentries
    rfl
  · obtain ⟨hlength, hread⟩ := readEntries_dump hempty hsafe hentries
    have hsome : entries ++ [125] ≠ [125] := by
      intro heq
      have hnil : entries = [] := by simpa using heq
      rw [hnil, List.length_nil] at hlength
      exact hempty (List.eq_nil_of_length_eq_zero (by omega))
    rw [if_neg hsome, hread _ (by rw [List.length_append]; omega), Option.bind_some]
    rfl

end Valoserveri
