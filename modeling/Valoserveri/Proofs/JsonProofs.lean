import Valoserveri.Reachable
import Valoserveri.Library.ExceptRun

/-!
# Serializing safe strings

A string of safe characters is valid UTF-8, and `dump` puts it between quotes as it is. The object
that `updateMonitorMessage` builds has only such strings if the tag is one.
-/

namespace Valoserveri

open ExceptRun

theorem Safe.append {s t : StdString} (hs : Safe s) (ht : Safe t) : Safe (s ++ t) := by
  intro c hc
  rcases List.mem_append.mp hc with h | h
  · exact hs c h
  · exact ht c h

theorem forall_char {P : Int8 → Prop} (h : ∀ n : Fin 256, P (UInt8.ofNat n).toInt8) (c : Int8) : P c := by
  have hc := h ⟨c.toUInt8.toNat, c.toUInt8.toNat_lt⟩
  simpa using hc

/-! ## Strings -/

theorem decode_safe {c : Int8} (hc : SafeChar c) (codep : Nat) :
    decode 0 codep c.toUInt8 = (0, c.toUInt8.toNat) := by
  have h : ∀ c : Int8, SafeChar c → decode 0 0 c.toUInt8 = (0, c.toUInt8.toNat) :=
    forall_char (by decide +kernel)
  exact h c hc

theorem escape_safe {c : Int8} (hc : SafeChar c) : escape c.toUInt8.toNat c = [c] := by
  have h : ∀ c : Int8, SafeChar c → escape c.toUInt8.toNat c = [c] :=
    forall_char (by decide +kernel)
  exact h c hc

theorem dumpEscapedLoop_safe (s : StdString) {rest : StdString} (h : Safe rest) (i codep : Nat)
    (out : StdString) : dumpEscapedLoop s rest i 0 codep out = .ok (out ++ rest) := by
  induction rest generalizing i codep out with
  | nil => simp [dumpEscapedLoop]
  | cons c rest ih =>
    have hc : SafeChar c := h c (by simp)
    have hrest : Safe rest := fun d hd => h d (List.mem_cons_of_mem _ hd)
    rw [dumpEscapedLoop, decode_safe hc]
    simp only [if_true]
    rw [escape_safe hc, ih hrest]
    simp

/-- A safe string is dumped as it is, between quotes. -/
theorem dumpString_safe {s : StdString} (h : Safe s) : dumpString s = .ok (34 :: (s ++ [34])) := by
  unfold dumpString dumpEscaped
  rw [dumpEscapedLoop_safe s h, ok_bind]
  rfl

/-- A safe string is valid UTF-8. -/
theorem isValidUTF8_safe {s : StdString} (h : Safe s) :
    (s.map Int8.toUInt8).toByteArray.IsValidUTF8 := by
  -- the characters with the same codes encode to the string
  refine ⟨s.map fun c => Char.ofNat c.toUInt8.toNat, ?_⟩
  have hchar : ∀ c : Int8, SafeChar c →
      String.utf8EncodeChar (Char.ofNat c.toUInt8.toNat) = [c.toUInt8] :=
    forall_char (by decide +kernel)
  unfold List.utf8Encode
  congr 1
  induction s with
  | nil => rfl
  | cons c s ih =>
    rw [List.map_cons, List.map_cons, List.flatMap_cons, hchar c (h c (by simp)),
      ← ih fun d hd => h d (List.mem_cons_of_mem _ hd)]
    rfl

/-! ## Objects -/

/-- An object whose strings are all safe. -/
def SafeJson (j : Json) : Prop :=
  ∀ entry ∈ j, Safe entry.1 ∧ ∀ s, entry.2 = .string s → Safe s

theorem SafeJson.set {j : Json} (hj : SafeJson j) {key : StdString} {value : JsonValue}
    (hkey : Safe key) (hvalue : ∀ s, value = .string s → Safe s) : SafeJson (Json.set key value j) := by
  induction j with
  | nil =>
    intro entry hentry
    obtain rfl : entry = (key, value) := by simpa [Json.set] using hentry
    exact ⟨hkey, hvalue⟩
  | cons head j ih =>
    obtain ⟨k, v⟩ := head
    have htail : SafeJson j := fun entry hentry => hj entry (List.mem_cons_of_mem _ hentry)
    intro entry hentry
    unfold Json.set at hentry
    split_ifs at hentry with hk hlt
    · rcases List.mem_cons.mp hentry with rfl | hentry
      · exact ⟨hkey, hvalue⟩
      · exact htail entry hentry
    · rcases List.mem_cons.mp hentry with rfl | hentry
      · exact ⟨hkey, hvalue⟩
      · exact hj entry hentry
    · rcases List.mem_cons.mp hentry with rfl | hentry
      · exact hj _ (by simp)
      · exact ih htail entry hentry

theorem dumpEntry_safe {entry : StdString × JsonValue} (hkey : Safe entry.1)
    (hvalue : ∀ s, entry.2 = .string s → Safe s) : ∃ text, dumpEntry entry = .ok text := by
  obtain ⟨key, value⟩ := entry
  have hdump : ∃ text, value.dump = .ok text := by
    cases value with
    | number n => exact ⟨_, rfl⟩
    | string s => exact ⟨_, dumpString_safe (hvalue s rfl)⟩
  obtain ⟨text, hdump⟩ := hdump
  unfold dumpEntry
  rw [dumpString_safe hkey, ok_bind, hdump]
  exact ⟨_, rfl⟩

theorem dumpEntries_safe {j : Json} (hj : SafeJson j) : ∃ text, dumpEntries j = .ok text := by
  induction j with
  | nil => exact ⟨_, rfl⟩
  | cons entry j ih =>
    obtain ⟨first, hfirst⟩ := dumpEntry_safe (hj entry (by simp)).1 (hj entry (by simp)).2
    cases j with
    | nil => exact ⟨first, hfirst⟩
    | cons next j =>
      obtain ⟨others, hothers⟩ := ih fun e he => hj e (List.mem_cons_of_mem _ he)
      refine ⟨first ++ 44 :: others, ?_⟩
      show (dumpEntry entry).bind _ = _
      rw [hfirst, ok_bind, hothers, ok_bind]

theorem dump_safe {j : Json} (hj : SafeJson j) : ∃ text, j.dump = .ok text := by
  obtain ⟨entries, hentries⟩ := dumpEntries_safe hj
  unfold Json.dump
  rw [hentries]
  exact ⟨_, rfl⟩

/-! ## The state of the lights -/

theorem toNat_of_mem_toDigits {n : Nat} {d : Char} (hd : d ∈ Nat.toDigits 10 n) :
    48 ≤ d.toNat ∧ d.toNat ≤ 57 := by
  have hdigit := Nat.isDigit_of_mem_toDigits (by decide) (by decide) hd
  simp only [Char.isDigit, Bool.and_eq_true, decide_eq_true_eq, UInt32.le_iff_toNat_le] at hdigit
  exact hdigit

theorem isDigit_of_mem_stdToString {n : Nat} {c : Int8} (hc : c ∈ stdToString n) : isDigit c = true := by
  obtain ⟨d, hd, rfl⟩ := List.mem_map.mp hc
  have hrange := toNat_of_mem_toDigits hd
  have hcode : ∀ n : Fin 10, isDigit (Int8.ofNat (48 + n)) = true := by decide
  have hd := hcode ⟨d.toNat - 48, by omega⟩
  simpa [Nat.add_sub_cancel' hrange.1] using hd

theorem safe_stdToString (n : Nat) : Safe (stdToString n) := by
  have hdigit : ∀ c : Int8, isDigit c = true → SafeChar c := forall_char (by decide +kernel)
  intro c hc
  exact hdigit c (isDigit_of_mem_stdToString hc)

theorem safe_hexColor (color : Color) : Safe (hexColor color) := by
  have h : ∀ n : Fin 256, Safe (hex2 (UInt8.ofNat n)) := by decide +kernel
  have hbyte : ∀ b : UInt8, Safe (hex2 b) := by
    intro b
    have hb := h ⟨b.toNat, b.toNat_lt⟩
    simpa using hb
  exact ((hbyte _).append (hbyte _)).append (hbyte _)

theorem safeJson_addLightEntry {acc : UnorderedMap UInt32 Color × Json} (is : List Nat)
    (h : SafeJson acc.2) : SafeJson (is.foldl addLightEntry acc).2 := by
  induction is generalizing acc with
  | nil => exact h
  | cons i is ih =>
    have hkey : Safe (lit "light" ++ stdToString i) :=
      Safe.append (by decide) (safe_stdToString i)
    refine ih (h.set hkey fun s hs => ?_)
    obtain rfl := JsonValue.string.inj hs
    exact safe_hexColor _

theorem safeJson_toJson {state : LightState} (h : Safe state.tag) : SafeJson state.toJson.2 := by
  refine safeJson_addLightEntry _ ?_
  refine SafeJson.set (SafeJson.set ?_ (by decide) ?_) (by decide) ?_
  · intro entry hentry
    cases hentry
  · intro s hs
    cases hs
  · intro s hs
    obtain rfl := JsonValue.string.inj hs
    exact h

/-- A state with a safe tag can be serialized. -/
theorem serialize_safe {state : LightState} (h : Safe state.tag) :
    ∃ text, state.serialize = .ok text :=
  dump_safe (safeJson_toJson h)

end Valoserveri
