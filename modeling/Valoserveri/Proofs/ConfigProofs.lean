import Valoserveri.Proofs.AgreementProofs
import Mathlib.Data.List.TakeWhile

/-!
# Reading numbers from the configuration

`std::stoi` reads a numeral up to the first character that does not belong to it, and the address and
the number of channels of a light are narrowed to a byte. They are read exactly only if the
configuration writes them as plain numerals of numbers that fit.
-/

namespace Valoserveri

open ExceptRun

/-- The text is a complete decimal numeral. -/
def IsNumeral (text : StdString) : Prop := text ≠ [] ∧ ∀ c ∈ text, isDigit c = true

instance (text : StdString) : Decidable (IsNumeral text) :=
  @instDecidableAnd _ _ _ (List.decidableBAll (fun c => isDigit c = true) text)

/-- A field is what its text says: the default for a missing text, or the number of a numeral. -/
def ReadsAs (text : StdString) (defaultValue : Nat) (field : UInt8) : Prop :=
  text = [] ∧ field.toNat = defaultValue ∨ IsNumeral text ∧ field.toNat = digitsValue text

/-- The text is missing, or the numeral of a number that fits in a byte. -/
def FitsByte (text : StdString) : Prop := text = [] ∨ IsNumeral text ∧ digitsValue text ≤ 255

/-- What the configuration says under a key of light `i`, which is nothing if there is no such key. -/
def Config.lightText (config : Config) (i : Nat) (key : StdString) : StdString :=
  config.ini.get (lit "light" ++ stdToString i) key []

/-- The numbers of the first `n` lights are what the configuration says. -/
def LightsConfig.ReadsExactly (lights : LightsConfig) (config : Config) (n : Nat) : Prop :=
  ∀ i < n, ∃ light, lights.lights.lookup (UInt32.ofNat i) = some light ∧
    ReadsAs (config.lightText i (lit "address")) 0 light.address ∧
    ReadsAs (config.lightText i (lit "numChannels")) (defaultNumChannels light.type) light.numChannels

/-! ## Numerals -/

theorem isDigit_sign {c : Int8} (h : isDigit c = true) : isSpace c = false ∧ c ≠ 45 ∧ c ≠ 43 := by
  have hall : ∀ c : Int8, isDigit c = true → isSpace c = false ∧ c ≠ 45 ∧ c ≠ 43 :=
    forall_char (by decide +kernel)
  exact hall c h

/-- `std::stoi` gives the number of a numeral that is not too large. -/
theorem stoi_numeral {text : StdString} (h : IsNumeral text) (hlt : digitsValue text < 2 ^ 31) :
    stoi text = .ok (digitsValue text : Int) := by
  obtain ⟨hne, hdigits⟩ := h
  obtain ⟨c, rest, rfl⟩ := List.exists_cons_of_ne_nil hne
  obtain ⟨hspace, hminus, hplus⟩ := isDigit_sign (hdigits c (by simp))
  have hdrop : (c :: rest).dropWhile isSpace = c :: rest :=
    List.dropWhile_cons_of_neg (by simp [hspace])
  have htake : (c :: rest).takeWhile isDigit = c :: rest := List.takeWhile_eq_self_iff.mpr hdigits
  have hsigned : signedDigits (c :: rest) = (false, c :: rest) := by
    unfold signedDigits
    simp only [if_neg hminus, if_neg hplus, htake]
  unfold stoi
  rw [hdrop, hsigned]
  simp only [reduceCtorEq, if_false]
  exact if_neg (by omega)

/-! ## One number -/

theorem getUnsigned_eq_ok {config : Config} {section_ key : StdString} {d a : Nat}
    (h : config.getUnsigned section_ key d = .ok a) :
    (config.ini.get section_ key [] = [] ∧ a = d) ∨
      (config.ini.get section_ key [] ≠ [] ∧
        ∃ parsed, stoi (config.ini.get section_ key []) = .ok parsed ∧ a = parsed.toNat) := by
  unfold Config.getUnsigned at h
  simp only at h
  split_ifs at h with hempty
  · exact Or.inl ⟨hempty, (Except.ok.inj h).symm⟩
  · obtain ⟨parsed, hparsed, h⟩ := except_bind_eq_ok.mp h
    split_ifs at h with hneg
    exact Or.inr ⟨hempty, parsed, hparsed, (Except.ok.inj h).symm⟩

/-- A number that is narrowed to a byte is what the text says exactly if the text is missing or the
    numeral of a number that fits. -/
theorem readsAs_iff {config : Config} {section_ key : StdString} {d a : Nat} (hd : d ≤ 255)
    (h : config.getUnsigned section_ key d = .ok a) :
    ReadsAs (config.ini.get section_ key []) d (UInt8.ofNat a) ↔
      FitsByte (config.ini.get section_ key []) := by
  have htoNat : (UInt8.ofNat a).toNat = a % 256 := UInt8.toNat_ofNat'
  rcases getUnsigned_eq_ok h with ⟨hempty, rfl⟩ | ⟨hne, parsed, hparsed, rfl⟩
  · refine iff_of_true (Or.inl ⟨hempty, ?_⟩) (Or.inl hempty)
    omega
  · constructor
    · rintro (⟨hempty, -⟩ | ⟨hnumeral, hvalue⟩)
      · exact absurd hempty hne
      · exact Or.inr ⟨hnumeral, by omega⟩
    · rintro (hempty | ⟨hnumeral, hle⟩)
      · exact absurd hempty hne
      · have hvalue := stoi_numeral hnumeral (by omega)
        obtain rfl := Except.ok.inj (hparsed.symm.trans hvalue)
        refine Or.inr ⟨hnumeral, ?_⟩
        rw [Int.toNat_natCast] at htoNat ⊢
        omega

/-! ## All lights -/

theorem parseLight_eq_ok {config : Config} {i : Nat} {light : Light}
    (h : parseLight config i = .ok light) :
    ∃ address numChannels,
      config.getUnsigned (lit "light" ++ stdToString i) (lit "address") 0 = .ok address ∧
      config.getUnsigned (lit "light" ++ stdToString i) (lit "numChannels")
        (defaultNumChannels light.type) = .ok numChannels ∧
      light.address = UInt8.ofNat address ∧ light.numChannels = UInt8.ofNat numChannels ∧
      parseLightType (config.get (lit "light" ++ stdToString i) (lit "type") (lit "rgb")) =
        .ok light.type := by
  unfold parseLight at h
  obtain ⟨address, haddress, h⟩ := bind_eq_ok.mp h
  obtain ⟨type, htype, h⟩ := bind_eq_ok.mp h
  obtain ⟨numChannels, hchannels, h⟩ := bind_eq_ok.mp h
  obtain rfl := Except.ok.inj h
  exact ⟨address, numChannels, haddress, hchannels, rfl, rfl, htype⟩

theorem lookup_emplace_of_mem {ν : Type} {m : UnorderedMap UInt32 ν} {k key : UInt32} (value : ν)
    (h : k ∈ m) : (emplace m key value).lookup k = m.lookup k := by
  unfold emplace
  split_ifs with hkey
  · rfl
  · have hne : k ≠ key := fun heq => hkey (heq ▸ h)
    exact Finmap.lookup_insert_of_ne _ hne

/-- Every light that is parsed is the light of its section. -/
theorem addLight_lookup {config : Config} {n : Nat} {l : LightsConfig} (hn : n < 2 ^ 31)
    (h : (List.range n).foldlM (LightsConfig.addLight config) {} = .ok l) :
    ∀ i < n, ∃ light, parseLight config i = .ok light ∧
      l.lights.lookup (UInt32.ofNat i) = some light := by
  induction n generalizing l with
  | zero =>
    intro i hi
    omega
  | succ n ih =>
    rw [List.range_succ, foldlM_concat_eq_ok] at h
    obtain ⟨l', hl', hadd⟩ := h
    obtain ⟨light, hlight, hadd⟩ := bind_eq_ok.mp hadd
    obtain rfl := Except.ok.inj hadd
    have hnum := addLight_numbered hl'
    intro i hi
    rcases Nat.lt_succ_iff_lt_or_eq.mp hi with hlt | rfl
    · obtain ⟨light', hlight', hlookup⟩ := ih (by omega) hl' i hlt
      exact ⟨light', hlight', (lookup_emplace_of_mem light (hnum.mem hlt)).trans hlookup⟩
    · have hnew : UInt32.ofNat i ∉ l'.lights := by
        rw [hnum.mem_iff (by omega), UInt32.toNat_ofNat', Nat.mod_eq_of_lt (by omega)]
        exact Nat.lt_irrefl i
      refine ⟨light, hlight, ?_⟩
      show (emplace l'.lights (UInt32.ofNat i) light).lookup _ = _
      unfold emplace
      rw [if_neg hnew, Finmap.lookup_insert]

/-- Every configured light has its section, and is looked up under its number. -/
theorem parse_lookup {config : Config} {n : Nat} {lights : LightsConfig}
    (hn : config.getUnsigned (lit "global") (lit "lights") 0 = .ok n)
    (h : LightsConfig.parse config = .ok lights) :
    ∀ i < n, ∃ light, parseLight config i = .ok light ∧
      lights.lights.lookup (UInt32.ofNat i) = some light := by
  obtain ⟨n', hn', hlights⟩ := bind_eq_ok.mp h
  obtain rfl := Except.ok.inj (hn.symm.trans hn')
  exact addLight_lookup (getUnsigned_lt (by decide) hn) hlights

theorem defaultNumChannels_le (type : LightType) : defaultNumChannels type ≤ 255 := by
  cases type <;> decide

/-- The numbers of the lights are read exactly if and only if the configuration gives each of them as
    the numeral of a number that fits in a byte, or not at all. -/
theorem parse_readsExactly_iff (config : Config) (n : Nat) (lights : LightsConfig)
    (hn : config.getUnsigned (lit "global") (lit "lights") 0 = .ok n)
    (h : LightsConfig.parse config = .ok lights) :
    lights.ReadsExactly config n ↔
      ∀ i < n, FitsByte (config.lightText i (lit "address")) ∧
        FitsByte (config.lightText i (lit "numChannels")) := by
  refine forall_congr' fun i => forall_congr' fun hi => ?_
  obtain ⟨light, hlight, hl⟩ := parse_lookup hn h i hi
  obtain ⟨address, numChannels, haddress, hchannels, hfield, hfield', -⟩ := parseLight_eq_ok hlight
  have hiff := readsAs_iff (by decide) haddress
  have hiff' := readsAs_iff (defaultNumChannels_le light.type) hchannels
  rw [← hfield] at hiff
  rw [← hfield'] at hiff'
  constructor
  · rintro ⟨light', hl', hreads, hreads'⟩
    obtain rfl := Option.some.inj (hl.symm.trans hl')
    exact ⟨hiff.mp hreads, hiff'.mp hreads'⟩
  · rintro ⟨hfits, hfits'⟩
    exact ⟨light, hl, hiff.mpr hfits, hiff'.mpr hfits'⟩

/-- The numbers of the default configuration are read exactly. -/
theorem parse_readsExactly_distConfig :
    ∃ lights, LightsConfig.parse distConfig = .ok lights ∧ lights.ReadsExactly distConfig 2 := by
  obtain ⟨dmx, hdmx⟩ := construct_distConfig
  have hparse := (construct_eq_ok hdmx).1
  refine ⟨_, hparse, (parse_readsExactly_iff distConfig 2 _ rfl hparse).mpr fun i hi => ?_⟩
  obtain rfl | rfl : i = 0 ∨ i = 1 := by omega
  · exact ⟨Or.inr (by decide), Or.inl (by decide)⟩
  · exact ⟨Or.inr (by decide), Or.inl (by decide)⟩

/-- A light at address 300. -/
def wideConfig : Config := .ofEntries [("global=lights", "1"), ("light0=address", "300")]

/-- The address 300 is read as 44. -/
theorem parse_wideConfig_narrowed :
    ¬ ∀ (config : Config) (n : Nat) (lights : LightsConfig),
      config.getUnsigned (lit "global") (lit "lights") 0 = .ok n →
      LightsConfig.parse config = .ok lights → lights.ReadsExactly config n := by
  intro h
  obtain ⟨lights, hparse⟩ : ∃ lights, LightsConfig.parse wideConfig = .ok lights := ⟨_, rfl⟩
  obtain ⟨light, -, haddress, -⟩ := h wideConfig 1 lights rfl hparse 0 (by decide)
  have hvalue : digitsValue (wideConfig.lightText 0 (lit "address")) = 300 := by decide
  have hlt := light.address.toNat_lt
  rcases haddress with ⟨hempty, -⟩ | ⟨-, hreads⟩
  · exact absurd hempty (by decide)
  · omega

end Valoserveri
