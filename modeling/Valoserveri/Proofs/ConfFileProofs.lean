import Valoserveri.Proofs.IniProofs

/-!
# A configuration file is read as it is written

However the lines of a configuration file are laid out, the parser finds in them what they say, and
reports no error.
-/

namespace Valoserveri

open Lines

/-! ## Whitespace and plain text -/

theorem Blank.spaces {s : StdString} (h : Blank s) : ∀ c ∈ s, isSpace c = true := fun c hc => (h c hc).1

theorem Blank.notMem {s : StdString} (h : Blank s) {c : Int8} (hc : isSpace c = false) : c ∉ s := by
  intro hmem
  rw [h.spaces c hmem] at hc
  exact absurd hc (by decide)

theorem Blank.no_newline {s : StdString} (h : Blank s) : 10 ∉ s := fun hmem => (h 10 hmem).2 rfl

theorem noComment_of_notMem {s : StdString} (h : 59 ∉ s) : NoComment s := by
  refine (List.pairwise_of_forall_mem_list fun c _ d hd hsemicolon => ?_).isChain
  exact absurd (hsemicolon ▸ hd) h

theorem NoComment.append_spaces {a b : StdString} (ha : NoComment a) (hb : ∀ c ∈ b, isSpace c = true) :
    NoComment (a ++ b) := by
  have hsemicolon : (59 : Int8) ∉ b := fun hmem => absurd (hb 59 hmem) (by decide)
  refine List.IsChain.append ha (noComment_of_notMem hsemicolon) fun c _ d hd heq => ?_
  exact absurd (heq ▸ List.mem_of_mem_head? hd) hsemicolon

theorem lastIsSpace_append_spaces (a : StdString) {b : StdString} (hb : ∀ c ∈ b, isSpace c = true)
    (hne : b ≠ []) (wasSpace : Bool) : lastIsSpace wasSpace (a ++ b) = true := by
  unfold lastIsSpace
  rw [List.getLast?_append_of_ne_nil a hne, List.getLast?_eq_some_getLast hne]
  exact hb _ (List.getLast_mem hne)

/-- A text without whitespace in front does not begin with whitespace. -/
theorem exists_cons_of_lskip {s : StdString} (h : lskip s = s) (hne : s ≠ []) :
    ∃ c rest, s = c :: rest ∧ isSpace c = false := by
  obtain ⟨c, rest, rfl⟩ := List.exists_cons_of_ne_nil hne
  refine ⟨c, rest, rfl, ?_⟩
  by_contra hc
  have hskip : lskip (c :: rest) = lskip rest := List.dropWhile_cons_of_pos (by simpa using hc)
  have hlength := congrArg List.length (hskip.symm.trans h)
  have hle := (List.dropWhile_suffix isSpace (l := rest)).length_le
  unfold lskip at hlength
  rw [List.length_cons] at hlength
  omega

/-- A trailer, as it is found in the buffer. -/
def TrailerString (value tail : StdString) : Prop :=
  (∀ c ∈ tail, isSpace c = true) ∨
    value ≠ [] ∧ ∃ pad rest, tail = pad ++ 59 :: rest ∧ (∀ c ∈ pad, isSpace c = true) ∧ pad ≠ []

theorem Trailer.cString {value tail : StdString} (h : Trailer value tail) :
    TrailerString value (cString tail) := by
  rcases h with hblank | ⟨hvalue, pad, rest, rfl, hpad, hne, -⟩
  · rw [cString_of_notMem (hblank.notMem (by decide))]
    exact Or.inl hblank.spaces
  · have hzero : 0 ∉ pad ++ [59] := by simp [hpad.notMem (by decide : isSpace 0 = false)]
    rw [List.append_cons, cString_append hzero]
    exact Or.inr ⟨hvalue, pad, Valoserveri.cString rest, by simp, hpad.spaces, hne⟩

/-- A value is cut out of its line, whatever stands around it. -/
theorem beforeComment_trailer {value tail : StdString} (pad : StdString) (hpad : ∀ c ∈ pad, isSpace c = true)
    (hplain : NoComment value) (htrimmed : Trimmed value) (htail : TrailerString value tail) :
    beforeComment (lskip (rstrip (pad ++ (value ++ tail)))) = value := by
  rcases htail with hspaces | ⟨hne, pad', rest, rfl, hpad', hne'⟩
  · rw [← List.append_assoc, rstrip_append_spaces _ hspaces]
    by_cases hnil : value = []
    · rw [hnil, List.append_nil, rstrip_eq_nil_iff.mpr hpad]
      rfl
    · rw [rstrip_append_of_ne_nil _ (by rwa [htrimmed.2]), htrimmed.2, lskip_spaces_append hpad,
        htrimmed.1]
      unfold beforeComment
      rw [findCharsOrComment_end (by simp) hplain, List.take_length, htrimmed.2]
  · have hstart : lskip (rstrip (pad ++ (value ++ (pad' ++ 59 :: rest)))) =
        (value ++ pad') ++ 59 :: rstrip rest := by
      rw [← List.append_assoc, ← List.append_assoc, rstrip_append_cons _ (by decide), List.append_assoc,
        List.append_assoc, lskip_spaces_append hpad, ← List.append_assoc]
      obtain ⟨c, rest', rfl, hc⟩ := exists_cons_of_lskip htrimmed.1 hne
      rw [List.cons_append, List.cons_append, lskip_cons hc]
    rw [hstart]
    unfold beforeComment
    rw [findCharsOrComment_comment (by simp) (hplain.append_spaces hpad')
      (lastIsSpace_append_spaces value hpad' hne' false), List.take_left,
      rstrip_append_spaces _ hpad', htrimmed.2]

/-! ## One line -/

/-- What the parser does with what a line says. -/
def IniParser.apply (p : IniParser) : ConfLine → IniParser
  | .note => { p with lineno := p.lineno + 1 }
  | .header name => { p with lineno := p.lineno + 1, section_ := name, prevName := [] }
  | .entry name value => { p with lineno := p.lineno + 1, prevName := name }.handle name value
  | .more value => { p with lineno := p.lineno + 1 }.handle p.prevName value

/-- A line with something on it. -/
theorem parseLine_start {p : IniParser} {line pad rest : StdString} {c : Int8}
    (hline : cString line = pad ++ c :: rest) (hpad : ∀ d ∈ pad, isSpace d = true)
    (hc : isSpace c = false) (hbom : p.lineno = 0 → (cString line).take 3 ≠ utf8Bom) :
    p.parseLine line =
      { p with lineno := p.lineno + 1 }.parseStart (decide (pad ≠ [])) (c :: rstrip rest) := by
  have hskip : lskip (rstrip (cString line)) = c :: rstrip rest := by
    rw [hline, rstrip_append_cons _ hc, lskip_spaces_append hpad, lskip_cons hc]
  have hindented : ((c :: rstrip rest).length < (rstrip (cString line)).length) ↔ pad ≠ [] := by
    rw [hline, rstrip_append_cons _ hc, List.length_append, ← List.length_pos_iff]
    omega
  rw [parseLine_eq hbom, hskip]
  simp only [hindented]

theorem parseStart_nil (p : IniParser) (indented : Bool) : p.parseStart indented [] = p := by
  unfold IniParser.parseStart
  simp

theorem parseStart_comment (p : IniParser) (indented : Bool) {c : Int8} (hc : c = 59 ∨ c = 35)
    (rest : StdString) : p.parseStart indented (c :: rest) = p := by
  unfold IniParser.parseStart
  rw [if_pos (by simpa using hc)]

theorem parseStart_more {p : IniParser} {start : StdString} (hprev : p.prevName ≠ []) (hne : start ≠ [])
    (hfirst : start.head? ≠ some 59 ∧ start.head? ≠ some 35) :
    p.parseStart true start = p.handle p.prevName (beforeComment start) := by
  unfold IniParser.parseStart
  rw [if_neg (not_or.mpr hfirst), if_pos ⟨hprev, hne, rfl⟩]

theorem parseStart_bracket (p : IniParser) {indented : Bool} {rest : StdString}
    (h : ¬ (p.prevName ≠ [] ∧ indented = true)) :
    p.parseStart indented (91 :: rest) =
      if rest[findCharsOrComment rest (lit "]")]? = some 93 then
        { p with
          section_ := strncpy0 (rest.take (findCharsOrComment rest (lit "]"))) MAX_SECTION, prevName := [] }
      else p.fail := by
  unfold IniParser.parseStart
  rw [if_neg (by simp), if_neg fun hmore => h ⟨hmore.1, hmore.2.2⟩, if_pos List.head?_cons]
  rfl

theorem parseStart_assignment (p : IniParser) {indented : Bool} {start : StdString}
    (h : ¬ (p.prevName ≠ [] ∧ indented = true)) (hne : start ≠ [])
    (hfirst : start.head? ≠ some 59 ∧ start.head? ≠ some 35 ∧ start.head? ≠ some 91) :
    p.parseStart indented start =
      if start[findCharsOrComment start (lit "=:")]? = some 61 ∨
          start[findCharsOrComment start (lit "=:")]? = some 58 then
        { p with prevName :=
            strncpy0 (rstrip (start.take (findCharsOrComment start (lit "=:")))) MAX_NAME }.handle
          (rstrip (start.take (findCharsOrComment start (lit "=:"))))
          (beforeComment (lskip (start.drop (findCharsOrComment start (lit "=:") + 1))))
      else p.fail := by
  unfold IniParser.parseStart
  rw [if_neg (not_or.mpr ⟨hfirst.1, hfirst.2.1⟩), if_neg fun hmore => h ⟨hmore.1, hmore.2.2⟩,
    if_neg hfirst.2.2, if_pos hne]

/-! ## One line that says something -/

/-- A byte order mark is found only at the beginning of a name. -/
theorem take_append_ne_bom {a b : StdString} (ha : a.take 3 ≠ utf8Bom)
    (hb : ∀ c ∈ b.head?, c ∉ utf8Bom) : (a ++ b).take 3 ≠ utf8Bom := by
  unfold utf8Bom at *
  rcases a with _ | ⟨x, _ | ⟨y, _ | ⟨z, a⟩⟩⟩
  · cases b with
    | nil => simp
    | cons c b => have := hb c rfl; simp_all
  · cases b with
    | nil => simp
    | cons c b => have := hb c rfl; simp_all
  · cases b with
    | nil => simp
    | cons c b => have := hb c rfl; simp_all
  · simpa using ha

theorem take_ne_bom {s : StdString} (h : ∀ c ∈ s.head?, c ∉ utf8Bom) : s.take 3 ≠ utf8Bom :=
  take_append_ne_bom (a := []) (by decide) h

theorem cString_take_ne_bom {line : StdString} (h : line.take 3 ≠ utf8Bom) :
    (cString line).take 3 ≠ utf8Bom := by
  intro hmark
  obtain ⟨rest, hrest⟩ : cString line <+: line := List.takeWhile_prefix _
  refine h ?_
  rw [← hrest, List.take_append_of_le_length (length_of_take_eq_bom hmark), hmark]

theorem isSpace_notMem_bom {c : Int8} (hc : isSpace c = true) : c ∉ utf8Bom := by
  intro hmem
  simp only [utf8Bom, List.mem_cons, List.not_mem_nil, or_false] at hmem
  rcases hmem with rfl | rfl | rfl <;> exact absurd hc (by decide)

/-- What stands behind whitespace is no byte order mark either. -/
theorem head?_blank_append {pad : StdString} (hpad : Blank pad) {c : Int8} (hc : c ∉ utf8Bom)
    (rest : StdString) : ∀ d ∈ (pad ++ c :: rest).head?, d ∉ utf8Bom := by
  cases pad with
  | nil => simpa using hc
  | cons d pad => simpa using isSpace_notMem_bom (hpad.spaces d (by simp))

theorem ConfLine.Laid.unmarked {item : ConfLine} {line : StdString} (h : item.Laid line) :
    line.take 3 ≠ utf8Bom := by
  cases h with
  | blank hpad =>
    refine take_ne_bom fun c hc => ?_
    exact isSpace_notMem_bom (hpad.spaces c (List.mem_of_mem_head? hc))
  | comment hpad hc =>
    refine take_ne_bom (head?_blank_append hpad ?_ _)
    rcases hc with rfl | rfl <;> decide
  | header hname hrest =>
    refine take_ne_bom fun c hc => ?_
    obtain rfl : 91 = c := by simpa using hc
    decide
  | entry hname hpad hc =>
    rw [List.append_assoc]
    refine take_append_ne_bom hname.unmarked (head?_blank_append hpad ?_ _)
    rcases hc with rfl | rfl <;> decide
  | more hpad hne =>
    refine take_ne_bom fun c hc => ?_
    rw [List.append_assoc, List.head?_append_of_ne_nil _ hne] at hc
    exact isSpace_notMem_bom (hpad.spaces c (List.mem_of_mem_head? hc))

/-- The header of a section. -/
theorem parseStart_header (p : IniParser) {name : StdString} (hname : SectionName name)
    (rest : StdString) :
    p.parseStart false (91 :: (name ++ 93 :: rest)) = { p with section_ := name, prevName := [] } := by
  have hstop : findCharsOrComment (name ++ 93 :: rest) (lit "]") = name.length := by
    refine findCharsOrComment_stop (fun c hc hmem => hname.bracket ?_) hname.plain.2.2 (by decide) rest
    obtain rfl : c = 93 := by simpa [lit] using hmem
    exact hc
  have hbracket : (name ++ 93 :: rest)[name.length]? = some 93 := by simp
  rw [parseStart_bracket p (by simp), hstop, if_pos hbracket, List.take_left]
  unfold strncpy0
  rw [List.take_of_length_le (Nat.le_sub_one_of_lt hname.length)]

/-- A name and its value. -/
theorem parseStart_entry (p : IniParser) {name pad : StdString} {c : Int8} (hname : EntryName name)
    (hpad : Blank pad) (hc : c = 61 ∨ c = 58) (rest : StdString) :
    p.parseStart false (name ++ pad ++ c :: rest) =
      { p with prevName := name }.handle name (beforeComment (lskip rest)) := by
  have hstop : findCharsOrComment (name ++ pad ++ c :: rest) (lit "=:") = (name ++ pad).length := by
    refine findCharsOrComment_stop (fun d hd hmem => ?_) (hname.plain.2.2.append_spaces hpad.spaces)
      (by simpa [lit] using hc) rest
    have hsep : d = 61 ∨ d = 58 := by simpa [lit] using hmem
    rcases List.mem_append.mp hd with hd | hd
    · rcases hsep with rfl | rfl
      · exact hname.separator.1 hd
      · exact hname.separator.2 hd
    · rcases hsep with rfl | rfl
      · exact hpad.notMem (by decide) hd
      · exact hpad.notMem (by decide) hd
  have hat : (name ++ pad ++ c :: rest)[(name ++ pad).length]? = some c := by simp
  have hdrop : (name ++ pad ++ c :: rest).drop ((name ++ pad).length + 1) = rest := by
    rw [List.append_cons]
    exact List.drop_left' List.length_append
  have hhead : (name ++ pad ++ c :: rest).head? = name.head? := by
    rw [List.append_assoc, List.head?_append_of_ne_nil _ hname.nonempty]
  have hfirst := hname.first
  rw [← hhead] at hfirst
  rw [parseStart_assignment p (by simp) (by simp) hfirst, hstop, hat, if_pos (by simpa using hc),
    List.take_left, hdrop, rstrip_append_spaces _ hpad.spaces, hname.trimmed.2]
  unfold strncpy0
  rw [List.take_of_length_le (Nat.le_sub_one_of_lt hname.length)]

/-- The parser finds in a line what the line says. -/
theorem ConfLine.Laid.parseLine_eq {item : ConfLine} {line : StdString} (h : item.Laid line)
    {p : IniParser} (hplaced : ∀ value, item = .more value → p.prevName ≠ []) :
    p.parseLine line = p.apply item := by
  have hbom : p.lineno = 0 → (cString line).take 3 ≠ utf8Bom :=
    fun _ => cString_take_ne_bom h.unmarked
  cases h with
  | blank hpad =>
    rw [Valoserveri.parseLine_eq hbom, cString_of_notMem (hpad.notMem (by decide)),
      rstrip_eq_nil_iff.mpr hpad.spaces]
    exact parseStart_nil _ _
  | @comment pad rest c hpad hc hrest =>
    have hc' : c ≠ 0 ∧ isSpace c = false := by rcases hc with rfl | rfl <;> decide
    have hstring : cString (pad ++ c :: rest) = pad ++ c :: cString rest := by
      rw [List.append_cons, cString_append (by simp [hpad.notMem (by decide : isSpace 0 = false), hc'.1.symm])]
      simp
    rw [parseLine_start hstring hpad.spaces hc'.2 hbom]
    exact parseStart_comment _ _ hc _
  | @header name rest hname hrest =>
    have hstring : cString (91 :: name ++ 93 :: rest) = [] ++ 91 :: (name ++ 93 :: cString rest) := by
      rw [List.append_cons, cString_append (by simp [hname.plain.1])]
      simp
    rw [parseLine_start hstring (by simp) (by decide) hbom, rstrip_append_cons _ (by decide)]
    exact parseStart_header _ hname _
  | @entry name pad pad' value tail c hname hpad hc hpad' hplain htrimmed htail =>
    obtain ⟨d, rest, hcons, hd⟩ := exists_cons_of_lskip hname.trimmed.1 hname.nonempty
    have hc' : c ≠ 0 ∧ isSpace c = false := by rcases hc with rfl | rfl <;> decide
    have hzero : 0 ∉ name ++ pad ++ [c] ++ pad' ++ value := by
      simp [hname.plain.1, hpad.notMem (by decide : isSpace 0 = false), hc'.1.symm, hplain.1,
        hpad'.notMem (by decide : isSpace 0 = false)]
    have hstring : cString (name ++ pad ++ c :: (pad' ++ value ++ tail)) =
        [] ++ d :: (rest ++ pad ++ c :: (pad' ++ (value ++ cString tail))) := by
      have happend := cString_append hzero tail
      simp only [List.append_assoc, List.cons_append, List.nil_append] at happend ⊢
      rw [happend, hcons, List.cons_append]
    rw [parseLine_start hstring (by simp) hd hbom, rstrip_append_cons _ hc'.2]
    have hstart := parseStart_entry { p with lineno := p.lineno + 1 } hname hpad hc
      (rstrip (pad' ++ (value ++ cString tail)))
    rw [beforeComment_trailer pad' hpad'.spaces hplain.2.2 htrimmed htail.cString, hcons] at hstart
    simpa [IniParser.apply, hcons] using hstart
  | @more pad value tail hpad hne hplain htrimmed hvalue hfirst htail =>
    obtain ⟨d, rest, rfl, hd⟩ := exists_cons_of_lskip htrimmed.1 hvalue
    have hzero : 0 ∉ pad ++ (d :: rest) := by
      simp only [List.mem_append, not_or]
      exact ⟨hpad.notMem (by decide), hplain.1⟩
    have hstring : cString (pad ++ (d :: rest) ++ tail) = pad ++ d :: (rest ++ cString tail) := by
      rw [cString_append hzero, List.append_assoc, List.cons_append]
    have hbefore := beforeComment_trailer [] (by simp) hplain.2.2 htrimmed htail.cString
    rw [List.nil_append, List.cons_append, rstrip_cons hd, lskip_cons hd] at hbefore
    have hprev : { p with lineno := p.lineno + 1 }.prevName ≠ [] := hplaced _ rfl
    rw [parseLine_start hstring hpad.spaces hd hbom, decide_eq_true hne,
      parseStart_more hprev (by simp) (by simpa using hfirst), hbefore]
    rfl

theorem ConfLine.Laid.no_newline {item : ConfLine} {line : StdString} (h : item.Laid line) :
    10 ∉ line := by
  have htrailer : ∀ {value tail : StdString}, Trailer value tail → 10 ∉ tail := by
    rintro value tail (hblank | ⟨-, pad, rest, rfl, hpad, -, hrest⟩)
    · exact hblank.no_newline
    · simp [hpad.no_newline, hrest]
  cases h with
  | blank hpad => exact hpad.no_newline
  | comment hpad hc hrest =>
    rcases hc with rfl | rfl <;> simp [hpad.no_newline, hrest]
  | header hname hrest => simp [hname.plain.2.1, hrest]
  | entry hname hpad hc hpad' hplain _ htail =>
    rcases hc with rfl | rfl <;>
      simp [hname.plain.2.1, hpad.no_newline, hpad'.no_newline, hplain.2.1, htrailer htail]
  | more hpad _ hplain _ _ _ htail => simp [hpad.no_newline, hplain.2.1, htrailer htail]

/-! ## The values of a key -/

theorem intercalate_concat {sep : StdString} {vs : List StdString} (hne : vs ≠ []) (v : StdString) :
    sep.intercalate (vs ++ [v]) = sep.intercalate vs ++ sep ++ v := by
  induction vs with
  | nil => exact absurd rfl hne
  | cons w vs ih =>
    cases vs with
    | nil => simp [List.intercalate, List.intersperse]
    | cons w' vs =>
      have := ih (by simp)
      simp only [List.intercalate, List.cons_append, List.intersperse_cons_cons, List.flatten_cons,
        List.append_assoc] at this ⊢
      rw [this]

theorem joinValues_eq_nil_iff {vs : List StdString} :
    joinValues vs = [] ↔ vs.dropWhile (· = []) = [] := by
  unfold joinValues
  constructor
  · intro h
    by_contra hne
    obtain ⟨v, ws, hcons⟩ := List.exists_cons_of_ne_nil hne
    have hv : v ≠ [] := by
      have := List.head_dropWhile_not (fun v : StdString => decide (v = [])) hne
      simpa [hcons] using this
    rw [hcons] at h
    cases ws with
    | nil => exact hv (by simpa [List.intercalate] using h)
    | cons w ws => simp [List.intercalate, List.intersperse] at h
  · intro h
    rw [h]
    rfl

/-- A further value is appended as the handler does. -/
theorem joinValues_concat (vs : List StdString) (v : StdString) :
    joinValues (vs ++ [v]) =
      (if joinValues vs ≠ [] then joinValues vs ++ [10] else joinValues vs) ++ v := by
  by_cases h : vs.dropWhile (· = []) = []
  · have hnil := joinValues_eq_nil_iff.mpr h
    rw [hnil, if_neg (by simp), List.nil_append]
    unfold joinValues
    rw [List.dropWhile_append, h]
    by_cases hv : v = [] <;> simp [hv, List.intercalate]
  · rw [if_pos (joinValues_eq_nil_iff.not.mpr h)]
    unfold joinValues
    rw [List.dropWhile_append, if_neg (by simpa using h), intercalate_concat h]

theorem valuesUnder_concat (ps : List (StdString × StdString)) (k v key : StdString) :
    valuesUnder (ps ++ [(k, v)]) key = valuesUnder ps key ++ if k = key then [v] else [] := by
  unfold valuesUnder
  by_cases h : k = key <;> simp [h]

theorem getD_valueOf (ps : List (StdString × StdString)) (key : StdString) :
    (valueOf ps key).getD [] = joinValues (valuesUnder ps key) := by
  unfold valueOf
  split_ifs with h
  · rw [h]
    rfl
  · rfl

/-- The handler adds a value to those of its key. -/
theorem valueHandler_valueOf (ps : List (StdString × StdString)) (section_ name value : StdString) :
    (INIReader.mk (valueOf ps)).valueHandler section_ name value =
      { values := valueOf (ps ++ [(INIReader.makeKey section_ name, value)]) } := by
  unfold INIReader.valueHandler
  refine congrArg INIReader.mk (funext fun key => ?_)
  by_cases hkey : key = INIReader.makeKey section_ name
  · subst hkey
    rw [Function.update_self]
    simp only [getD_valueOf]
    have hne : valuesUnder ps (INIReader.makeKey section_ name) ++ [value] ≠ [] := by simp
    unfold valueOf
    rw [valuesUnder_concat, if_pos rfl, if_neg hne, joinValues_concat]
    rfl
  · rw [Function.update_of_ne hkey]
    show valueOf ps key = valueOf _ key
    unfold valueOf
    rw [valuesUnder_concat, if_neg (Ne.symm hkey), List.append_nil]

theorem valueHandler_values {reader : INIReader} {ps : List (StdString × StdString)}
    (h : reader.values = valueOf ps) (section_ name value : StdString) :
    (reader.valueHandler section_ name value).values =
      valueOf (ps ++ [(INIReader.makeKey section_ name, value)]) := by
  obtain rfl : reader = { values := valueOf ps } := congrArg INIReader.mk h
  rw [valueHandler_valueOf]

/-! ## The whole file -/

/-- The parser applies the lines one after the other, and has then the values of the file. -/
theorem foldl_apply (file : List ConfLine) (p : IniParser) (ps : List (StdString × StdString))
    (hreader : p.reader.values = valueOf ps) :
    (file.foldl IniParser.apply p).reader.values =
        valueOf (ps ++ ConfLine.pairs p.section_ p.prevName file) ∧
      (file.foldl IniParser.apply p).error = p.error := by
  induction file generalizing p ps with
  | nil => exact ⟨by rw [ConfLine.pairs, List.append_nil]; exact hreader, rfl⟩
  | cons item file ih =>
    have hhandle := valueHandler_values hreader
    cases item with
    | note => exact ih _ ps hreader
    | header name => exact ih _ ps hreader
    | entry name value =>
      have := ih (p.apply (.entry name value)) _ (hhandle p.section_ name value)
      rwa [List.append_assoc] at this
    | more value =>
      have := ih (p.apply (.more value)) _ (hhandle p.section_ p.prevName value)
      rwa [List.append_assoc] at this

/-- The lines of a file, laid out, are parsed as what they say. -/
theorem foldl_parseLine_laid {items : List (ConfLine × StdString)} (p : IniParser)
    (hlaid : ∀ item ∈ items, item.1.Laid item.2)
    (hplaced : ConfLine.wellPlaced (decide (p.prevName ≠ [])) (items.map Prod.fst) = true) :
    (items.map fun item => item.2 ++ [10]).foldl IniParser.parseLine p =
      (items.map Prod.fst).foldl IniParser.apply p := by
  induction items generalizing p with
  | nil => rfl
  | cons item items ih =>
    obtain ⟨item, line⟩ := item
    have hline : item.Laid line := hlaid _ List.mem_cons_self
    have hnext : ∀ q : IniParser,
        ConfLine.wellPlaced (decide (q.prevName ≠ [])) (items.map Prod.fst) = true →
        (items.map fun item => item.2 ++ [10]).foldl IniParser.parseLine q =
          (items.map Prod.fst).foldl IniParser.apply q :=
      fun q hq => ih q (fun i hi => hlaid i (List.mem_cons_of_mem _ hi)) hq
    rw [List.map_cons, List.map_cons, List.foldl_cons, List.foldl_cons, parseLine_append_newline]
    cases item with
    | note =>
      rw [hline.parseLine_eq (by simp)]
      exact hnext _ hplaced
    | header name =>
      rw [hline.parseLine_eq (by simp)]
      exact hnext _ hplaced
    | entry name value =>
      rw [hline.parseLine_eq (by simp)]
      refine hnext _ ?_
      cases hline with
      | entry hname =>
        have hopen : (p.apply (.entry name value)).prevName ≠ [] := hname.nonempty
        rw [decide_eq_true hopen]
        exact hplaced
    | more value =>
      obtain ⟨hopen, hrest⟩ := Bool.and_eq_true_iff.mp hplaced
      rw [hline.parseLine_eq fun _ _ => of_decide_eq_true hopen]
      exact hnext _ hrest

/-- A blank line changes nothing but the number of the line. -/
theorem parseLine_nil (p : IniParser) : p.parseLine [] = { p with lineno := p.lineno + 1 } :=
  (ConfLine.Laid.blank (by simp [Blank])).parseLine_eq (by simp)

/-- It does not matter whether a file ends with a line break. -/
theorem iniParsed_append_newline (text : StdString) :
    (iniParsed (text ++ [10])).reader = (iniParsed text).reader ∧
      (iniParsed (text ++ [10])).error = (iniParsed text).error := by
  unfold iniParsed
  rcases lines_concat (by decide : 0 < 199) text with hlines | ⟨before, line, hlines, hlines'⟩
  · rw [hlines, List.foldl_append, List.foldl_cons, List.foldl_nil, ← List.nil_append [10],
      parseLine_append_newline, parseLine_nil]
    exact ⟨rfl, rfl⟩
  · rw [hlines, hlines', List.foldl_append, List.foldl_append, List.foldl_cons, List.foldl_cons,
      parseLine_append_newline]
    exact ⟨rfl, rfl⟩

/-- The text of a file whose lines are laid out in some way. -/
def layout (items : List (ConfLine × StdString)) : StdString :=
  (items.map fun item => item.2 ++ [10]).flatten

theorem lines_layout {items : List (ConfLine × StdString)}
    (hlaid : ∀ item ∈ items, item.1.Laid item.2 ∧ item.2.length < 199) :
    lines 10 199 (layout items) = items.map fun item => item.2 ++ [10] := by
  induction items with
  | nil => exact lines_nil
  | cons item items ih =>
    obtain ⟨hline, hlength⟩ := hlaid item List.mem_cons_self
    unfold layout at ih ⊢
    rw [List.map_cons, List.flatten_cons, List.append_assoc, List.singleton_append,
      lines_append_sep hline.no_newline hlength, ih fun i hi => hlaid i (List.mem_cons_of_mem _ hi)]

/-- The byte order mark does not count. -/
theorem iniParsed_bom_layout {items : List (ConfLine × StdString)}
    (hlaid : ∀ item ∈ items, item.1.Laid item.2 ∧ item.2.length < 199)
    (hmark : ∀ item, items.head? = some item → utf8Bom.length + item.2.length < 199) :
    (iniParsed (utf8Bom ++ layout items)).reader = (iniParsed (layout items)).reader ∧
      (iniParsed (utf8Bom ++ layout items)).error = (iniParsed (layout items)).error := by
  cases items with
  | nil =>
    have hempty : ({} : IniParser).parseLine (utf8Bom ++ []) = { lineno := 1 } :=
      (parseLine_bom rfl rfl (by decide)).trans (parseLine_nil _)
    unfold iniParsed layout
    rw [List.map_nil, List.flatten_nil, lines_of_notMem (by decide) (by decide) (by decide), lines_nil,
      List.foldl_cons, List.foldl_nil, hempty]
    exact ⟨rfl, rfl⟩
  | cons item items =>
    obtain ⟨hline, hlength⟩ := hlaid item List.mem_cons_self
    have hnewline : 10 ∉ utf8Bom ++ item.2 := by
      simp only [List.mem_append, not_or]
      exact ⟨by decide, hline.no_newline⟩
    have hsplit : layout (item :: items) = item.2 ++ 10 :: layout items := by simp [layout]
    have hfirst : ({} : IniParser).parseLine (utf8Bom ++ item.2) = ({} : IniParser).parseLine item.2 :=
      parseLine_bom rfl rfl (cString_take_ne_bom hline.unmarked)
    unfold iniParsed
    rw [hsplit, ← List.append_assoc,
      lines_append_sep hnewline (by rw [List.length_append]; exact hmark item rfl),
      lines_append_sep hline.no_newline hlength, List.foldl_cons, List.foldl_cons,
      parseLine_append_newline, parseLine_append_newline, hfirst]
    exact ⟨rfl, rfl⟩

theorem valueOf_nil : valueOf [] = fun _ => none := rfl

theorem iniParsed_layout {bom : StdString} {items : List (ConfLine × StdString)} {text : StdString}
    (hbom : bom = [] ∨ bom = utf8Bom)
    (hlaid : ∀ item ∈ items, item.1.Laid item.2 ∧ item.2.length < 199)
    (hmark : ∀ item, items.head? = some item → bom.length + item.2.length < 199)
    (hplaced : ConfLine.wellPlaced false (items.map Prod.fst) = true)
    (htext : text = bom ++ layout items ∨ text ++ [10] = bom ++ layout items) :
    (iniParsed text).reader.values = valueOf (ConfLine.pairs [] [] (items.map Prod.fst)) ∧
      (iniParsed text).error = 0 := by
  have hlines := lines_layout hlaid
  have hparsed : iniParsed (layout items) = (items.map Prod.fst).foldl IniParser.apply {} := by
    unfold iniParsed
    rw [hlines]
    exact foldl_parseLine_laid {} (fun item hitem => (hlaid item hitem).1) hplaced
  have hmarked : (iniParsed (bom ++ layout items)).reader = (iniParsed (layout items)).reader ∧
      (iniParsed (bom ++ layout items)).error = (iniParsed (layout items)).error := by
    rcases hbom with rfl | rfl
    · exact ⟨rfl, rfl⟩
    · exact iniParsed_bom_layout hlaid hmark
  have hended : (iniParsed text).reader = (iniParsed (bom ++ layout items)).reader ∧
      (iniParsed text).error = (iniParsed (bom ++ layout items)).error := by
    rcases htext with rfl | htext
    · exact ⟨rfl, rfl⟩
    · rw [← htext]
      exact ⟨(iniParsed_append_newline text).1.symm, (iniParsed_append_newline text).2.symm⟩
  rw [hended.1, hended.2, hmarked.1, hmarked.2, hparsed]
  exact foldl_apply (items.map Prod.fst) {} [] valueOf_nil.symm

/-- A configuration file whose lines fit in the buffer, the first one with the byte order mark, is read as
    it is written, in whatever way its lines are laid out, with or without a byte order mark, and with or
    without a line break at its end. -/
theorem construct_layout (bom : StdString) (items : List (ConfLine × StdString)) (text : StdString)
    (hbom : bom = [] ∨ bom = utf8Bom)
    (hlaid : ∀ item ∈ items, item.1.Laid item.2 ∧ item.2.length < 199)
    (hmark : ∀ item, items.head? = some item → bom.length + item.2.length < 199)
    (hplaced : ConfLine.wellPlaced false (items.map Prod.fst) = true)
    (htext : text = bom ++ layout items ∨ text ++ [10] = bom ++ layout items) :
    INIReader.construct (some text) =
      .ok ({ values := valueOf (ConfLine.pairs [] [] (items.map Prod.fst)) }, 0) := by
  obtain ⟨hvalues, herror⟩ := iniParsed_layout hbom hlaid hmark hplaced htext
  rw [iniReader_construct_some, herror, ← hvalues]
  rfl

/-- A file with a comment, a section and a value on two lines. -/
def sampleItems : List (ConfLine × StdString) :=
  [(.note, lit "# rig"), (.header (lit "a"), lit "[a]"), (.entry (lit "x") (lit "1"), lit "x = 1 ; one"),
    (.more (lit "2"), lit "  2")]

theorem sampleItems_laid : ∀ item ∈ sampleItems, item.1.Laid item.2 ∧ item.2.length < 199 := by
  have hname : EntryName (lit "x") :=
    { plain := by decide, trimmed := by decide, nonempty := by decide, first := by decide,
      separator := by decide, length := by decide, unmarked := by decide }
  have hsection : SectionName (lit "a") :=
    { plain := by decide, bracket := by decide, length := by decide }
  have hnote : ConfLine.note.Laid ([] ++ 35 :: lit " rig") := .comment (by decide) (by decide) (by decide)
  have hheader : (ConfLine.header (lit "a")).Laid (91 :: lit "a" ++ 93 :: []) :=
    .header hsection (by decide)
  have hentry : (ConfLine.entry (lit "x") (lit "1")).Laid
      (lit "x" ++ lit " " ++ 61 :: (lit " " ++ lit "1" ++ lit " ; one")) :=
    .entry hname (by decide) (by decide) (by decide) (by decide) (by decide)
      (Or.inr ⟨by decide, lit " ", lit " one", by decide⟩)
  have hmore : (ConfLine.more (lit "2")).Laid (lit "  " ++ lit "2" ++ []) :=
    .more (by decide) (by decide) (by decide) (by decide) (by decide) (by decide) (Or.inl (by decide))
  intro item hitem
  simp only [sampleItems, List.mem_cons, List.not_mem_nil, or_false] at hitem
  rcases hitem with rfl | rfl | rfl | rfl
  · exact ⟨hnote, by decide⟩
  · exact ⟨hheader, by decide⟩
  · exact ⟨hentry, by decide⟩
  · exact ⟨hmore, by decide⟩

/-- The sample is read with a byte order mark in front. -/
theorem construct_layout_sampleItems :
    INIReader.construct (some (utf8Bom ++ layout sampleItems)) =
      .ok ({ values := valueOf [(lit "a=x", lit "1"), (lit "a=x", lit "2")] }, 0) :=
  construct_layout utf8Bom sampleItems _ (Or.inr rfl) sampleItems_laid (by simp [sampleItems]; decide)
    (by decide) (Or.inl rfl)

end Valoserveri
