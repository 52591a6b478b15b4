import Valoserveri.ConfFile
import Valoserveri.Library.ExceptRun
import Mathlib.Data.List.Chain

/-!
# Reading a line of the configuration file

The string functions of the parser, its loop over the lines of the file, and what it does not depend
on: the line break at the end of a line, and the byte order mark in front of the first.
-/

namespace Valoserveri

open Lines ExceptRun

/-! ## Strings in a buffer -/

theorem rstrip_append (a b : StdString) :
    rstrip (a ++ b) = if rstrip b = [] then rstrip a else a ++ rstrip b := by
  unfold rstrip List.rdropWhile
  rw [List.reverse_append, List.dropWhile_append]
  by_cases h : b.reverse.dropWhile isSpace = []
  · simp [h]
  · simp [h]

theorem rstrip_eq_nil_iff {s : StdString} : rstrip s = [] ↔ ∀ c ∈ s, isSpace c = true :=
  List.rdropWhile_eq_nil_iff

theorem rstrip_append_spaces (a : StdString) {b : StdString} (h : ∀ c ∈ b, isSpace c = true) :
    rstrip (a ++ b) = rstrip a := by
  rw [rstrip_append, if_pos (rstrip_eq_nil_iff.mpr h)]

theorem rstrip_append_of_ne_nil (a : StdString) {b : StdString} (h : rstrip b ≠ []) :
    rstrip (a ++ b) = a ++ rstrip b := by
  rw [rstrip_append, if_neg h]

theorem rstrip_cons {c : Int8} (hc : isSpace c = false) (b : StdString) :
    rstrip (c :: b) = c :: rstrip b := by
  have hsingle : rstrip [c] = [c] := by
    unfold rstrip
    rw [List.rdropWhile_singleton, if_neg (by simp [hc])]
  rw [← List.singleton_append, rstrip_append]
  by_cases h : rstrip b = []
  · rw [if_pos h, hsingle, h]
  · rw [if_neg h, List.singleton_append]

theorem rstrip_append_cons (a : StdString) {c : Int8} (hc : isSpace c = false) (b : StdString) :
    rstrip (a ++ c :: b) = a ++ c :: rstrip b := by
  rw [rstrip_append_of_ne_nil a (by rw [rstrip_cons hc]; simp), rstrip_cons hc]

theorem lskip_spaces_append {a : StdString} (h : ∀ c ∈ a, isSpace c = true) (b : StdString) :
    lskip (a ++ b) = lskip b := by
  unfold lskip
  rw [List.dropWhile_append_of_pos h]

theorem lskip_cons {c : Int8} (hc : isSpace c = false) (b : StdString) : lskip (c :: b) = c :: b :=
  List.dropWhile_cons_of_neg (by simp [hc])

theorem cString_append {a : StdString} (h : 0 ∉ a) (b : StdString) :
    cString (a ++ b) = a ++ cString b :=
  List.takeWhile_append_of_pos (forall_ne_sep h)

theorem cString_of_notMem {a : StdString} (h : 0 ∉ a) : cString a = a :=
  List.takeWhile_eq_self_iff.mpr (forall_ne_sep h)

theorem notMem_cString (s : StdString) : 0 ∉ cString s := by
  intro h
  have hne := List.mem_takeWhile_imp (p := fun c : Int8 => decide (c ≠ 0)) h
  exact absurd hne (by decide)

/-! ## Looking for a character or a comment -/

/-- Whether the last character gone over is whitespace. -/
def lastIsSpace (wasSpace : Bool) (s : StdString) : Bool := (s.getLast?.map isSpace).getD wasSpace

theorem lastIsSpace_cons (wasSpace : Bool) (c : Int8) (s : StdString) :
    lastIsSpace wasSpace (c :: s) = lastIsSpace (isSpace c) s := by
  unfold lastIsSpace
  cases s with
  | nil => rfl
  | cons d s => rw [List.getLast?_cons_cons]; simp [List.getLast?_cons]

/-- The search goes over a string without the characters and without a comment. -/
theorem findCharsOrCommentFrom_append {chars a : StdString} (wasSpace : Bool)
    (hchars : ∀ c ∈ a, c ∉ chars) (hspace : wasSpace = true → a.head? ≠ some 59) (ha : NoComment a)
    (b : StdString) :
    findCharsOrCommentFrom chars wasSpace (a ++ b) =
      a.length + findCharsOrCommentFrom chars (lastIsSpace wasSpace a) b := by
  induction a generalizing wasSpace with
  | nil => simp [lastIsSpace]
  | cons c a ih =>
    have hstop : ¬ (c ∈ chars ∨ wasSpace = true ∧ c = 59) := by
      rintro (hmem | ⟨hwas, rfl⟩)
      · exact hchars c (by simp) hmem
      · exact hspace hwas rfl
    have hnext : isSpace c = true → a.head? ≠ some 59 := by
      intro hc hhead
      obtain ⟨d, a, rfl⟩ := List.exists_cons_of_ne_nil (List.ne_nil_of_mem (List.mem_of_mem_head? hhead))
      obtain rfl : d = 59 := by simpa using hhead
      have := (List.isChain_cons_cons.mp ha).1 rfl
      rw [hc] at this
      exact absurd this (by decide)
    have htail : NoComment a := List.IsChain.tail ha
    rw [List.cons_append, findCharsOrCommentFrom, if_neg hstop,
      ih (isSpace c) (fun d hd => hchars d (List.mem_cons_of_mem c hd)) hnext htail, lastIsSpace_cons,
      List.length_cons]
    omega

/-- The search stops at one of the characters. -/
theorem findCharsOrComment_stop {chars a : StdString} (hchars : ∀ c ∈ a, c ∉ chars) (ha : NoComment a)
    {c : Int8} (hc : c ∈ chars) (b : StdString) : findCharsOrComment (a ++ c :: b) chars = a.length := by
  unfold findCharsOrComment
  rw [findCharsOrCommentFrom_append false hchars (by simp) ha, findCharsOrCommentFrom, if_pos (Or.inl hc),
    Nat.add_zero]

/-- The search stops at an inline comment. -/
theorem findCharsOrComment_comment {chars a : StdString} (hchars : ∀ c ∈ a, c ∉ chars)
    (ha : NoComment a) (hspace : lastIsSpace false a = true) (b : StdString) :
    findCharsOrComment (a ++ 59 :: b) chars = a.length := by
  unfold findCharsOrComment
  rw [findCharsOrCommentFrom_append false hchars (by simp) ha, findCharsOrCommentFrom,
    if_pos (Or.inr ⟨hspace, rfl⟩), Nat.add_zero]

theorem findCharsOrComment_end {chars a : StdString} (hchars : ∀ c ∈ a, c ∉ chars) (ha : NoComment a) :
    findCharsOrComment a chars = a.length := by
  have := findCharsOrCommentFrom_append false hchars (by simp) ha []
  rwa [List.append_nil, findCharsOrCommentFrom, Nat.add_zero] at this

/-! ## The loop over the lines -/

theorem fgets_eq_none_iff {num : Nat} {stream : StdString} : fgets num stream = none ↔ stream = [] := by
  unfold fgets
  split_ifs with h <;> simp [h]

theorem fgets_of_ne_nil {num : Nat} {stream : StdString} (h : stream ≠ []) :
    fgets num stream = some (stream.take (lineLength 10 (num - 1) stream),
      stream.drop (lineLength 10 (num - 1) stream)) := by
  unfold fgets
  rw [if_neg h, List.splitAt_eq]

/-- The loop parses the lines of the file one after the other, if it is given a pass for each character
    and one more. -/
theorem iniParseLoop_eq (passes : Nat) (stream : StdString) (p : IniParser)
    (hpasses : stream.length < passes) :
    iniParseLoop passes stream p = .ok ((lines 10 199 stream).foldl IniParser.parseLine p) := by
  induction passes generalizing stream p with
  | zero => omega
  | succ passes ih =>
    rw [iniParseLoop]
    by_cases hnil : stream = []
    · rw [fgets_eq_none_iff.mpr hnil, hnil, lines_nil]
      rfl
    · have hpos := lineLength_pos 10 (by decide : 0 < 199) stream
      have hshort : (stream.drop (lineLength 10 199 stream)).length < passes := by
        have := List.length_pos_iff.mpr hnil
        rw [List.length_drop]
        omega
      rw [fgets_of_ne_nil hnil, lines_of_ne_nil (by decide) hnil]
      exact ih _ _ hshort

theorem iniParseStream_eq (stream : StdString) :
    iniParseStream stream = .ok ((lines 10 199 stream).foldl IniParser.parseLine {}) :=
  iniParseLoop_eq _ stream {} (Nat.lt_succ_self _)

/-- The parser after the lines of a file. -/
def iniParsed (stream : StdString) : IniParser := (lines 10 199 stream).foldl IniParser.parseLine {}

theorem iniReader_construct_some (stream : StdString) :
    INIReader.construct (some stream) = .ok ((iniParsed stream).reader, ((iniParsed stream).error : Int)) := by
  show (iniParseStream stream).bind _ = _
  rw [iniParseStream_eq]
  rfl

theorem isSpace_newline : isSpace 10 = true := by decide

/-- A byte order mark does not reach into the line break. -/
theorem take_append_newline_eq_bom_iff (s : StdString) :
    (s ++ [10]).take 3 = utf8Bom ↔ s.take 3 = utf8Bom := by
  unfold utf8Bom
  rcases s with _ | ⟨a, _ | ⟨b, _ | ⟨c, s⟩⟩⟩ <;> simp

theorem length_of_take_eq_bom {s : StdString} (h : s.take 3 = utf8Bom) : 3 ≤ s.length := by
  have := congrArg List.length h
  rw [List.length_take] at this
  simp only [utf8Bom, List.length_cons, List.length_nil] at this
  omega

/-- The line break at the end of a line does not count. -/
theorem parseLine_append_newline (p : IniParser) (line : StdString) :
    p.parseLine (line ++ [10]) = p.parseLine line := by
  by_cases hzero : (0 : Int8) ∈ line
  · -- the string in the buffer ends before the line does
    obtain ⟨s, rest, rfl, hs⟩ := List.eq_append_cons_of_mem hzero
    have hcut : ∀ t : StdString, cString (s ++ 0 :: t) = s := by
      intro t
      rw [cString_append hs]
      simp [cString]
    unfold IniParser.parseLine
    rw [List.append_assoc, List.cons_append, hcut, hcut]
  · have hstring : cString (line ++ [10]) = line ++ [10] := cString_of_notMem (by simp [hzero])
    have hstrip : ∀ s : StdString, rstrip (s ++ [10]) = rstrip s := by
      intro s
      exact rstrip_append_spaces s (by simp [isSpace_newline])
    unfold IniParser.parseLine
    rw [hstring, cString_of_notMem hzero]
    simp only [take_append_newline_eq_bom_iff]
    by_cases hmarked : p.lineno + 1 = 1 ∧ line.take 3 = utf8Bom
    · simp only [decide_eq_true hmarked, if_true, hstrip,
        List.drop_append_of_le_length (length_of_take_eq_bom hmarked.2)]
    · simp only [decide_eq_false hmarked, Bool.false_eq_true, if_false, hstrip]

/-- A line without a byte order mark, or behind the first line. -/
theorem parseLine_eq {p : IniParser} {line : StdString}
    (h : p.lineno = 0 → (cString line).take 3 ≠ utf8Bom) :
    p.parseLine line = { p with lineno := p.lineno + 1 }.parseStart
      (decide ((lskip (rstrip (cString line))).length < (rstrip (cString line)).length))
      (lskip (rstrip (cString line))) := by
  have hmarked : ¬ (p.lineno + 1 = 1 ∧ (cString line).take 3 = utf8Bom) := by
    rintro ⟨hfirst, htake⟩
    exact h (by omega) htake
  unfold IniParser.parseLine
  simp only [decide_eq_false hmarked, Bool.false_eq_true, if_false, Bool.false_or]

/-- Without a value to continue, it does not matter what stands in front of a line. -/
theorem parseStart_of_prevName_nil {p : IniParser} (h : p.prevName = []) (b b' : Bool)
    (start : StdString) : p.parseStart b start = p.parseStart b' start := by
  unfold IniParser.parseStart
  simp [h]

/-- A byte order mark in front of the first line does not count. -/
theorem parseLine_bom {p : IniParser} {line : StdString} (hfirst : p.lineno = 0) (hprev : p.prevName = [])
    (hline : (cString line).take 3 ≠ utf8Bom) : p.parseLine (utf8Bom ++ line) = p.parseLine line := by
  have hstring : cString (utf8Bom ++ line) = utf8Bom ++ cString line := cString_append (by decide) line
  have htake : (utf8Bom ++ cString line).take 3 = utf8Bom := rfl
  have hdrop : (utf8Bom ++ cString line).drop 3 = cString line := rfl
  rw [parseLine_eq fun _ => hline]
  unfold IniParser.parseLine
  rw [hstring]
  simp only [htake, hdrop, hfirst, and_self, decide_true, if_true]
  exact parseStart_of_prevName_nil (p := { p with lineno := 0 + 1 }) hprev _ _ _

end Valoserveri
