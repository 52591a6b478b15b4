import Valoserveri.Proofs.ConfFileProofs

/-!
# Any file can be read

Whatever bytes a configuration file holds, the parser comes to its end, and the values it has found are
plain text without whitespace around it. A line it cannot make sense of is skipped. A line that does not
fit in the buffer is read as several lines.
-/

namespace Valoserveri

open Lines

/-! ## What a line can do -/

/-- The effects a line can have on the parser. -/
inductive LineEffect where
  /-- The line is a comment, or blank. -/
  | skip
  /-- The line cannot be read. -/
  | fail
  /-- A section begins. -/
  | enter (name : StdString)
  /-- A value is found, and values may go on under the name `next`. -/
  | give (next name value : StdString)

/-- The parser behind a line with the given effect. -/
def IniParser.perform (p : IniParser) : LineEffect → IniParser
  | .skip => p
  | .fail => p.fail
  | .enter name => { p with section_ := name, prevName := [] }
  | .give next name value => { p with prevName := next }.handle name value

/-- A name as it is cut out of a line. -/
structure CleanName (name : StdString) : Prop where
  plain : Plain name
  separator : 61 ∉ name ∧ 58 ∉ name

/-- What is kept of the text of a file: names that fit in their buffers, and trimmed values. -/
def LineEffect.Clean : LineEffect → Prop
  | .skip => True
  | .fail => True
  | .enter name => Plain name ∧ name.length < MAX_SECTION
  | .give next name value =>
    CleanName next ∧ next.length < MAX_NAME ∧ CleanName name ∧ Plain value ∧ Trimmed value

theorem Plain.of_isPrefix {s t : StdString} (h : Plain s) (ht : t <+: s) : Plain t := by
  obtain ⟨rest, rfl⟩ := ht
  refine ⟨fun hmem => h.1 (List.mem_append_left _ hmem), fun hmem => h.2.1 (List.mem_append_left _ hmem), ?_⟩
  exact List.IsChain.left_of_append h.2.2

theorem lskip_of_isPrefix {s t : StdString} (h : lskip s = s) (ht : t <+: s) : lskip t = t := by
  by_cases hnil : t = []
  · rw [hnil]
    rfl
  · obtain ⟨c, rest, rfl⟩ := List.exists_cons_of_ne_nil hnil
    obtain ⟨rest', rfl⟩ := ht
    obtain ⟨d, _, hcons, hd⟩ := exists_cons_of_lskip h (by simp)
    obtain rfl : c = d := List.head_eq_of_cons_eq hcons
    exact lskip_cons hd rest

theorem rstrip_isPrefix (s : StdString) : rstrip s <+: s := List.rdropWhile_prefix _ _

theorem lskip_lskip (s : StdString) : lskip (lskip s) = lskip s := List.dropWhile_idempotent isSpace s

/-- The search goes over text without the characters and without a comment. -/
theorem take_findCharsOrCommentFrom (chars : StdString) (wasSpace : Bool) (s : StdString) :
    (∀ c ∈ s.take (findCharsOrCommentFrom chars wasSpace s), c ∉ chars) ∧
      NoComment (s.take (findCharsOrCommentFrom chars wasSpace s)) ∧
      (wasSpace = true → (s.take (findCharsOrCommentFrom chars wasSpace s)).head? ≠ some 59) := by
  induction s generalizing wasSpace with
  | nil => exact ⟨by simp, by simp [NoComment], by simp⟩
  | cons c s ih =>
    rw [findCharsOrCommentFrom]
    by_cases hstop : c ∈ chars ∨ wasSpace = true ∧ c = 59
    · rw [if_pos hstop, List.take_zero]
      exact ⟨by simp, by simp [NoComment], by simp⟩
    · rw [if_neg hstop, List.take_succ_cons]
      rw [not_or] at hstop
      obtain ⟨hchars, hchain, hhead⟩ := ih (isSpace c)
      refine ⟨?_, ?_, ?_⟩
      · intro d hd
        rcases List.mem_cons.mp hd with rfl | hd
        · exact hstop.1
        · exact hchars d hd
      · generalize s.take (findCharsOrCommentFrom chars (isSpace c) s) = t at hchain hhead
        cases t with
        | nil => exact List.IsChain.singleton c
        | cons d t =>
          refine List.isChain_cons_cons.mpr ⟨fun hd => ?_, hchain⟩
          by_contra hspace
          exact hhead (by simpa using hspace) (by simp [hd])
      · intro hwas hc
        exact hstop.2 ⟨hwas, by simpa using hc⟩

theorem plain_take_findCharsOrComment {s : StdString} (h0 : 0 ∉ s) (h10 : 10 ∉ s) (chars : StdString) :
    Plain (s.take (findCharsOrComment s chars)) :=
  ⟨fun hmem => h0 (List.mem_of_mem_take hmem), fun hmem => h10 (List.mem_of_mem_take hmem),
    (take_findCharsOrCommentFrom chars false s).2.1⟩

/-- What stands in front of a comment is plain and trimmed. -/
theorem beforeComment_clean {s : StdString} (h0 : 0 ∉ s) (h10 : 10 ∉ s) (hskip : lskip s = s) :
    Plain (beforeComment s) ∧ Trimmed (beforeComment s) := by
  have hprefix : beforeComment s <+: s := (rstrip_isPrefix _).trans (List.take_prefix _ _)
  refine ⟨(plain_take_findCharsOrComment h0 h10 []).of_isPrefix (rstrip_isPrefix _), ?_, ?_⟩
  · exact lskip_of_isPrefix hskip hprefix
  · exact List.rdropWhile_idempotent _ _

theorem length_strncpy0_lt (src : StdString) {size : Nat} (h : 0 < size) :
    (strncpy0 src size).length < size := by
  unfold strncpy0
  rw [List.length_take]
  omega

/-- A line that begins with a bracket. -/
theorem parseStart_bracket_effect {rest prevName : StdString} {indented : Bool} (h0 : 0 ∉ rest)
    (h10 : 10 ∉ rest) (hmore : ¬ (prevName ≠ [] ∧ indented = true)) :
    ∃ e : LineEffect, e.Clean ∧
      ∀ p : IniParser, p.prevName = prevName → p.parseStart indented (91 :: rest) = p.perform e := by
  by_cases hstop : rest[findCharsOrComment rest (lit "]")]? = some 93
  · refine ⟨.enter (strncpy0 (rest.take (findCharsOrComment rest (lit "]"))) MAX_SECTION), ⟨?_, ?_⟩, ?_⟩
    · exact (plain_take_findCharsOrComment h0 h10 _).of_isPrefix (List.take_prefix _ _)
    · exact length_strncpy0_lt _ (by decide)
    · rintro p rfl
      rw [parseStart_bracket p hmore, if_pos hstop]
      rfl
  · refine ⟨.fail, trivial, ?_⟩
    rintro p rfl
    rw [parseStart_bracket p hmore, if_neg hstop]
    rfl

/-- A line that must be a name and its value. -/
theorem parseStart_assignment_effect {start prevName : StdString} {indented : Bool} (h0 : 0 ∉ start)
    (h10 : 10 ∉ start) (hmore : ¬ (prevName ≠ [] ∧ indented = true)) (hne : start ≠ [])
    (hfirst : start.head? ≠ some 59 ∧ start.head? ≠ some 35 ∧ start.head? ≠ some 91) :
    ∃ e : LineEffect, e.Clean ∧
      ∀ p : IniParser, p.prevName = prevName → p.parseStart indented start = p.perform e := by
  by_cases hstop : start[findCharsOrComment start (lit "=:")]? = some 61 ∨
      start[findCharsOrComment start (lit "=:")]? = some 58
  · have hchars := (take_findCharsOrCommentFrom (lit "=:") false start).1
    have hname : CleanName (rstrip (start.take (findCharsOrComment start (lit "=:")))) := by
      refine ⟨(plain_take_findCharsOrComment h0 h10 _).of_isPrefix (rstrip_isPrefix _), ?_, ?_⟩
      · exact fun hmem => hchars 61 ((rstrip_isPrefix _).subset hmem) (by decide)
      · exact fun hmem => hchars 58 ((rstrip_isPrefix _).subset hmem) (by decide)
    have hsuffix := List.dropWhile_suffix isSpace (l := start.drop (findCharsOrComment start (lit "=:") + 1))
    have hsubset : ∀ c ∈ lskip (start.drop (findCharsOrComment start (lit "=:") + 1)), c ∈ start :=
      fun c hc => List.mem_of_mem_drop (hsuffix.subset hc)
    obtain ⟨hplain, htrimmed⟩ := beforeComment_clean (fun hmem => h0 (hsubset _ hmem))
      (fun hmem => h10 (hsubset _ hmem)) (lskip_lskip (start.drop (findCharsOrComment start (lit "=:") + 1)))
    refine ⟨.give (strncpy0 (rstrip (start.take (findCharsOrComment start (lit "=:")))) MAX_NAME)
      (rstrip (start.take (findCharsOrComment start (lit "=:"))))
      (beforeComment (lskip (start.drop (findCharsOrComment start (lit "=:") + 1)))), ⟨?_, ?_, hname, hplain,
      htrimmed⟩, ?_⟩
    · refine ⟨hname.plain.of_isPrefix (List.take_prefix _ _), ?_, ?_⟩
      · exact fun hmem => hname.separator.1 (List.mem_of_mem_take hmem)
      · exact fun hmem => hname.separator.2 (List.mem_of_mem_take hmem)
    · exact length_strncpy0_lt _ (by decide)
    · rintro p rfl
      rw [parseStart_assignment p hmore hne hfirst, if_pos hstop]
      rfl
  · refine ⟨.fail, trivial, ?_⟩
    rintro p rfl
    rw [parseStart_assignment p hmore hne hfirst, if_neg hstop]
    rfl

/-- A line has one effect on all parsers with the same last name, and a clean one if the name is. -/
theorem parseStart_effect {start : StdString} (h0 : 0 ∉ start) (h10 : 10 ∉ start)
    (hskip : lskip start = start) (prevName : StdString) (indented : Bool) :
    ∃ e : LineEffect, (CleanName prevName → prevName.length < MAX_NAME → e.Clean) ∧
      ∀ p : IniParser, p.prevName = prevName → p.parseStart indented start = p.perform e := by
  by_cases hnil : start = []
  · exact ⟨.skip, fun _ _ => trivial, fun p _ => by rw [hnil, parseStart_nil]; rfl⟩
  obtain ⟨c, rest, rfl⟩ := List.exists_cons_of_ne_nil hnil
  by_cases hcomment : c = 59 ∨ c = 35
  · exact ⟨.skip, fun _ _ => trivial, fun p _ => parseStart_comment p indented hcomment rest⟩
  rw [not_or] at hcomment
  by_cases hmore : prevName ≠ [] ∧ indented = true
  · obtain ⟨hne, rfl⟩ := hmore
    refine ⟨.give prevName prevName (beforeComment (c :: rest)), fun hprev hlength => ?_, ?_⟩
    · obtain ⟨hplain, htrimmed⟩ := beforeComment_clean h0 h10 hskip
      exact ⟨hprev, hlength, hprev, hplain, htrimmed⟩
    · rintro p rfl
      exact parseStart_more hne hnil (by simpa using hcomment)
  by_cases hbracket : c = 91
  · subst hbracket
    obtain ⟨e, hclean, he⟩ := parseStart_bracket_effect (fun hmem => h0 (List.mem_cons_of_mem _ hmem))
      (fun hmem => h10 (List.mem_cons_of_mem _ hmem)) hmore
    exact ⟨e, fun _ _ => hclean, he⟩
  · obtain ⟨e, hclean, he⟩ := parseStart_assignment_effect h0 h10 hmore hnil
      (by simpa using ⟨hcomment.1, hcomment.2, hbracket⟩)
    exact ⟨e, fun _ _ => hclean, he⟩

/-- The same for the whole line in the buffer. The first line may have a byte order mark. -/
theorem parseLine_effect (p : IniParser) {line : StdString} (h10 : 10 ∉ line) :
    ∃ e : LineEffect, (CleanName p.prevName → p.prevName.length < MAX_NAME → e.Clean) ∧
      ∀ q : IniParser, q.prevName = p.prevName → (q.lineno = 0 ↔ p.lineno = 0) →
        q.parseLine line = { q with lineno := q.lineno + 1 }.perform e := by
  let marked := decide (p.lineno + 1 = 1 ∧ (cString line).take 3 = utf8Bom)
  let text := rstrip (if marked = true then (cString line).drop 3 else cString line)
  have hsubset : ∀ c ∈ lskip text, c ∈ cString line := by
    intro c hc
    have hc' := (rstrip_isPrefix _).subset ((List.dropWhile_suffix isSpace).subset hc)
    split_ifs at hc'
    · exact List.mem_of_mem_drop hc'
    · exact hc'
  have h10' : 10 ∉ cString line := fun hmem => h10 ((List.takeWhile_prefix _).subset hmem)
  obtain ⟨e, hclean, he⟩ := parseStart_effect (fun hmem => notMem_cString line (hsubset _ hmem))
    (fun hmem => h10' (hsubset _ hmem)) (lskip_lskip text) p.prevName
    (marked || decide ((lskip text).length < text.length))
  refine ⟨e, hclean, fun q hprev hfirst => ?_⟩
  have hmarked : decide (q.lineno + 1 = 1 ∧ (cString line).take 3 = utf8Bom) = marked := by
    refine decide_eq_decide.mpr (and_congr_left fun _ => ?_)
    omega
  rw [← he { q with lineno := q.lineno + 1 } hprev]
  unfold IniParser.parseLine
  simp only [hmarked]
  rfl

/-- A line is read as if it had no line break at its end. -/
theorem parseLine_of_mem_lines {text line : StdString} (h : line ∈ lines 10 199 text) :
    ∃ body, 10 ∉ body ∧ ∀ p : IniParser, p.parseLine line = p.parseLine body := by
  obtain ⟨body, hbody, rfl | rfl⟩ := (mem_lines h).2
  · exact ⟨_, hbody, fun p => rfl⟩
  · exact ⟨_, hbody, fun p => parseLine_append_newline p _⟩

/-- What every line keeps of two parsers, a text keeps. -/
theorem foldl_lines_kept {R : IniParser → IniParser → Prop}
    (hstep : ∀ p q body, 10 ∉ body → R p q → R (p.parseLine body) (q.parseLine body)) (text : StdString)
    {p q : IniParser} (h : R p q) :
    R ((lines 10 199 text).foldl IniParser.parseLine p)
      ((lines 10 199 text).foldl IniParser.parseLine q) := by
  have hlines := fun line (h : line ∈ lines 10 199 text) => parseLine_of_mem_lines h
  generalize lines 10 199 text = ls at hlines
  induction ls generalizing p q with
  | nil => exact h
  | cons line ls ih =>
    obtain ⟨body, hbody, hparse⟩ := hlines line List.mem_cons_self
    rw [List.foldl_cons, List.foldl_cons, hparse, hparse]
    exact ih (hstep p q body hbody h) fun l hl => hlines l (List.mem_cons_of_mem _ hl)

/-! ## The values of any file -/

/-- A key and a value as they are found in a file. -/
def CleanPair (pair : StdString × StdString) : Prop :=
  ∃ section_ name, pair.1 = INIReader.makeKey section_ name ∧ Plain section_ ∧
    section_.length < MAX_SECTION ∧ CleanName name ∧ Plain pair.2 ∧ Trimmed pair.2

/-- The parser holds clean names and values. -/
structure IniParser.Clean (p : IniParser) : Prop where
  prevName : CleanName p.prevName
  prevName_length : p.prevName.length < MAX_NAME
  section_ : Plain p.section_
  section_length : p.section_.length < MAX_SECTION
  values : ∃ ps, p.reader.values = valueOf ps ∧ ∀ pair ∈ ps, CleanPair pair

theorem IniParser.Clean.initial : ({} : IniParser).Clean where
  prevName := ⟨by decide, by decide⟩
  prevName_length := by decide
  section_ := by decide
  section_length := by decide
  values := ⟨[], valueOf_nil.symm, by simp⟩

theorem IniParser.Clean.perform {p : IniParser} (h : p.Clean) {e : LineEffect} (he : e.Clean) :
    (p.perform e).Clean := by
  cases e with
  | skip => exact h
  | fail => exact { h with }
  | enter name =>
    exact { h with
      prevName := IniParser.Clean.initial.prevName, prevName_length := (by decide : 0 < MAX_NAME),
      section_ := he.1, section_length := he.2 }
  | give next name value =>
    obtain ⟨hnext, hlength, hname, hplain, htrimmed⟩ := he
    obtain ⟨ps, hps, hclean⟩ := h.values
    refine { h with prevName := hnext, prevName_length := hlength, values := ?_ }
    refine ⟨ps ++ [(INIReader.makeKey p.section_ name, value)], ?_, fun pair hpair => ?_⟩
    · exact valueHandler_values hps p.section_ name value
    · rcases List.mem_append.mp hpair with hold | hnew
      · exact hclean pair hold
      · obtain rfl := List.mem_singleton.mp hnew
        exact ⟨p.section_, name, rfl, h.section_, h.section_length, hname, hplain, htrimmed⟩

theorem IniParser.Clean.parseLine {p : IniParser} (h : p.Clean) {line : StdString} (hline : 10 ∉ line) :
    (p.parseLine line).Clean := by
  obtain ⟨e, hclean, he⟩ := parseLine_effect p hline
  have hcount : { p with lineno := p.lineno + 1 }.Clean :=
    ⟨h.prevName, h.prevName_length, h.section_, h.section_length, h.values⟩
  rw [he p rfl Iff.rfl]
  exact hcount.perform (hclean h.prevName h.prevName_length)

theorem clean_iniParsed (text : StdString) : (iniParsed text).Clean :=
  foldl_lines_kept (R := fun p _ => p.Clean) (fun _ _ _ hbody h => h.parseLine hbody) text (q := {})
    IniParser.Clean.initial

/-- Whatever a file holds, it is read to its end, and every value in it is made of plain pieces without
    whitespace around them, under a key of plain names. -/
theorem construct_clean (text : StdString) :
    ∃ ps error, INIReader.construct (some text) = .ok ({ values := valueOf ps }, error) ∧
      ∀ pair ∈ ps, CleanPair pair := by
  obtain ⟨ps, hps, hclean⟩ := (clean_iniParsed text).values
  refine ⟨ps, ((iniParsed text).error : Int), ?_, hclean⟩
  rw [iniReader_construct_some, ← hps]

/-! ## Lines that do not count -/

/-- A line goes on to its end, or to the semicolon of an inline comment. -/
def CutOff (text tail : StdString) : Prop :=
  tail = [] ∨ ∃ c rest, text.getLast? = some c ∧ isSpace c = true ∧ tail = 59 :: rest

/-- A line that does not begin with whitespace and is neither a comment, a header nor a name with a
    value: the bracket or the separator does not come before the end of the line, or comes only in an
    inline comment. The line ends at its first zero. -/
inductive Unreadable (line : StdString) : Prop
  | header {text tail : StdString} : cString line = 91 :: (text ++ tail) → CutOff text tail → 93 ∉ text →
      Unreadable line
  | assignment {c : Int8} {text tail : StdString} : cString line = c :: (text ++ tail) →
      CutOff (c :: text) tail → isSpace c = false → c ≠ 59 ∧ c ≠ 35 ∧ c ≠ 91 → 61 ∉ c :: text →
      58 ∉ c :: text → Unreadable line

/-- A parser that has come as far as another, perhaps by more lines, and found the same values. -/
structure IniParser.Similar (p q : IniParser) : Prop where
  section_ : p.section_ = q.section_
  prevName : p.prevName = q.prevName
  reader : p.reader = q.reader
  begun : 0 < p.lineno ∧ 0 < q.lineno
  error : p.error = 0 → q.error = 0

theorem IniParser.Similar.perform {p q : IniParser} (h : p.Similar q) (e : LineEffect) :
    (p.perform e).Similar (q.perform e) := by
  obtain ⟨hsection, hprev, hreader, ⟨hp, hq⟩, herror⟩ := h
  cases e with
  | skip => exact ⟨hsection, hprev, hreader, ⟨hp, hq⟩, herror⟩
  | fail =>
    refine ⟨hsection, hprev, hreader, ⟨hp, hq⟩, fun hzero => ?_⟩
    have hfail : (if p.error = 0 then p.lineno else p.error) = 0 := hzero
    split_ifs at hfail <;> omega
  | enter name => exact ⟨rfl, rfl, hreader, ⟨hp, hq⟩, herror⟩
  | give next name value =>
    refine ⟨hsection, rfl, ?_, ⟨hp, hq⟩, herror⟩
    show p.reader.valueHandler p.section_ name value = q.reader.valueHandler q.section_ name value
    rw [hsection, hreader]

theorem IniParser.Similar.parseLine {p q : IniParser} (h : p.Similar q) {line : StdString}
    (hline : 10 ∉ line) : (p.parseLine line).Similar (q.parseLine line) := by
  obtain ⟨e, -, he⟩ := parseLine_effect p hline
  obtain ⟨hp, hq⟩ := h.begun
  have hcount : { p with lineno := p.lineno + 1 }.Similar { q with lineno := q.lineno + 1 } :=
    ⟨h.section_, h.prevName, h.reader, ⟨Nat.succ_pos _, Nat.succ_pos _⟩, h.error⟩
  rw [he p rfl Iff.rfl, he q h.prevName.symm (by omega)]
  exact hcount.perform e

/-- The rest of a file changes two similar parsers alike. -/
theorem IniParser.Similar.foldl {p q : IniParser} (h : p.Similar q) (text : StdString) :
    ((lines 10 199 text).foldl IniParser.parseLine p).Similar
      ((lines 10 199 text).foldl IniParser.parseLine q) :=
  foldl_lines_kept (fun _ _ _ hbody h => h.parseLine hbody) text h

/-- An error that is found stays. -/
theorem error_foldl_ne {p : IniParser} (h : p.error ≠ 0) (text : StdString) :
    ((lines 10 199 text).foldl IniParser.parseLine p).error ≠ 0 := by
  refine foldl_lines_kept (R := fun p _ => p.error ≠ 0) (fun p _ body hbody h => ?_) text (q := p) h
  obtain ⟨e, -, he⟩ := parseLine_effect p hbody
  rw [he p rfl Iff.rfl]
  cases e with
  | fail =>
    show (if p.error = 0 then p.lineno + 1 else p.error) ≠ 0
    rwa [if_neg h]
  | _ => exact h

theorem lineno_parseLine (p : IniParser) {line : StdString} (hline : 10 ∉ line) :
    (p.parseLine line).lineno = p.lineno + 1 := by
  obtain ⟨e, -, he⟩ := parseLine_effect p hline
  rw [he p rfl Iff.rfl]
  cases e <;> rfl

theorem lineno_pos {text : StdString} (h : text ≠ []) : 0 < (iniParsed text).lineno := by
  have hlines : lines 10 199 text = _ := lines_of_ne_nil (by decide) h
  obtain ⟨body, hbody, hparse⟩ := parseLine_of_mem_lines (hlines ▸ List.mem_cons_self)
  unfold iniParsed
  rw [hlines, List.foldl_cons, hparse]
  refine foldl_lines_kept (R := fun p _ => 0 < p.lineno) (fun p _ line hline _ => ?_) _ (q := {}) ?_
  · rw [lineno_parseLine p hline]
    exact Nat.succ_pos _
  · rw [lineno_parseLine _ hbody]
    exact Nat.succ_pos _

/-- The search for a character does not go into an inline comment. -/
theorem mem_of_findCharsOrComment {chars s text tail : StdString} (hchars : 59 ∉ chars)
    (hs : s <+: text ++ tail) (hcut : CutOff text tail) {d : Int8} (hd : d ∈ chars)
    (hstop : s[findCharsOrComment s chars]? = some d) : d ∈ text := by
  have hnocomment : NoComment (s.take (findCharsOrComment s chars)) :=
    (take_findCharsOrCommentFrom chars false s).2.1
  generalize findCharsOrComment s chars = k at hstop hnocomment
  have hk : k < s.length := (List.getElem?_eq_some_iff.mp hstop).1
  have hwhole : (text ++ tail)[k]? = some d := by
    obtain ⟨rest, hrest⟩ := hs
    rw [← hrest, List.getElem?_append_left hk, hstop]
  by_cases hlt : k < text.length
  · rw [List.getElem?_append_left hlt] at hwhole
    exact List.mem_of_getElem? hwhole
  rcases hcut with rfl | ⟨c, rest, hlast, hspace, rfl⟩
  · rw [List.append_nil] at hwhole
    exact List.mem_of_getElem? hwhole
  · rcases Nat.eq_or_lt_of_le (Nat.le_of_not_lt hlt) with rfl | hgt
    · -- the search has come to the semicolon of the comment
      have hsemicolon : (59 : Int8) = d := by simpa using hwhole
      exact absurd (hsemicolon ▸ hd) hchars
    · -- it would have gone over the semicolon, though there is whitespace before it
      have hover : text ++ [59] <+: s.take k := by
        have hwith : text ++ [59] <+: text ++ 59 :: rest := ⟨rest, by simp⟩
        refine List.prefix_of_prefix_length_le hwith ((List.take_prefix _ _).trans hs) ?_
        rw [List.length_take, List.length_append, List.length_singleton]
        omega
      obtain ⟨init, rfl⟩ := List.getLast?_eq_some_iff.mp hlast
      obtain ⟨more, hmore⟩ := hover
      rw [← hmore, List.append_assoc init] at hnocomment
      have hpair : isSpace c = false :=
        (List.isChain_cons_cons.mp hnocomment.left_of_append.right_of_append).1 rfl
      rw [hspace] at hpair
      cases hpair

/-- A line that cannot be read is skipped, and reported. -/
theorem Unreadable.parseLine_eq {line : StdString} (h : Unreadable line) {p : IniParser}
    (hp : 0 < p.lineno) : p.parseLine line = { p with lineno := p.lineno + 1 }.fail := by
  have hstart : ∀ {c : Int8} {rest : StdString}, cString line = c :: rest → isSpace c = false →
      p.parseLine line = { p with lineno := p.lineno + 1 }.parseStart false (c :: rstrip rest) := by
    intro c rest hline hc
    have hpad : cString line = [] ++ c :: rest := hline
    rw [parseLine_start hpad (by simp) hc fun hfirst => by omega]
    rfl
  cases h with
  | @header text tail hline hcut hbracket =>
    rw [hstart hline (by decide), parseStart_bracket _ (by simp), if_neg]
    intro hstop
    exact hbracket (mem_of_findCharsOrComment (by decide) (rstrip_isPrefix _) hcut (by decide) hstop)
  | @assignment c text tail hline hcut hc hfirst hequals hcolon =>
    rw [hstart hline hc, parseStart_assignment _ (by simp) (by simp) (by simpa using hfirst), if_neg]
    have hprefix : c :: rstrip (text ++ tail) <+: (c :: text) ++ tail :=
      List.cons_prefix_cons.mpr ⟨rfl, rstrip_isPrefix _⟩
    rintro (hstop | hstop)
    · exact hequals (mem_of_findCharsOrComment (by decide) hprefix hcut (by decide) hstop)
    · exact hcolon (mem_of_findCharsOrComment (by decide) hprefix hcut (by decide) hstop)

/-- A line that does nothing. -/
theorem similar_count {p : IniParser} (h : 0 < p.lineno) :
    { p with lineno := p.lineno + 1 }.Similar p ∧ p.Similar { p with lineno := p.lineno + 1 } :=
  ⟨⟨rfl, rfl, rfl, ⟨Nat.succ_pos _, h⟩, id⟩, ⟨rfl, rfl, rfl, ⟨h, Nat.succ_pos _⟩, id⟩⟩

/-- The text behind a line break is read on its own. -/
theorem iniParsed_append (before text : StdString) :
    iniParsed (before ++ 10 :: text) =
      (lines 10 199 text).foldl IniParser.parseLine (iniParsed (before ++ [10])) := by
  unfold iniParsed
  rw [lines_append_cons (by decide), List.foldl_append]

/-- Comments, blank lines and lines that cannot be read may be put anywhere behind the first line of a
    file without any effect on its values. The parser reports those that cannot be read. -/
theorem construct_insert_line (before line after : StdString) (h10 : 10 ∉ line) (hlength : line.length < 199)
    (hline : ConfLine.note.Laid line ∨ Unreadable line) :
    ∃ (reader : INIReader) (e e' : Int),
      INIReader.construct (some (before ++ 10 :: (line ++ 10 :: after))) = .ok (reader, e) ∧
      INIReader.construct (some (before ++ 10 :: after)) = .ok (reader, e') ∧
      (ConfLine.note.Laid line → (e = 0 ↔ e' = 0)) ∧ (Unreadable line → e ≠ 0) := by
  have hpos : 0 < (iniParsed (before ++ [10])).lineno := lineno_pos (by simp)
  have hwith : iniParsed (before ++ 10 :: (line ++ 10 :: after)) =
      (lines 10 199 after).foldl IniParser.parseLine ((iniParsed (before ++ [10])).parseLine line) := by
    rw [iniParsed_append, lines_append_sep h10 hlength, List.foldl_cons, parseLine_append_newline]
  have hwithout := iniParsed_append before after
  have hunreadable : Unreadable line → ((iniParsed (before ++ [10])).parseLine line).error ≠ 0 := by
    intro h
    rw [h.parseLine_eq hpos]
    show (if (iniParsed (before ++ [10])).error = 0 then (iniParsed (before ++ [10])).lineno + 1
      else (iniParsed (before ++ [10])).error) ≠ 0
    split_ifs with hzero
    · exact Nat.succ_ne_zero _
    · exact hzero
  generalize iniParsed (before ++ [10]) = p at hpos hwith hwithout hunreadable
  have hsimilar : (p.parseLine line).Similar p := by
    rcases hline with hnote | hunread
    · rw [hnote.parseLine_eq (by simp)]
      exact (similar_count hpos).1
    · have hne := hunreadable hunread
      rw [hunread.parseLine_eq hpos] at hne ⊢
      exact ⟨rfl, rfl, rfl, ⟨Nat.succ_pos _, hpos⟩, fun hzero => absurd hzero hne⟩
  have hend := hsimilar.foldl after
  rw [← hwith, ← hwithout] at hend
  refine ⟨_, _, ((iniParsed (before ++ 10 :: after)).error : Int), iniReader_construct_some _, ?_,
    fun hnote => ?_, fun hunread => ?_⟩
  · rw [hend.reader]
    exact iniReader_construct_some _
  · have hback : p.Similar (p.parseLine line) := by
      rw [hnote.parseLine_eq (by simp)]
      exact (similar_count hpos).2
    have hend' := hback.foldl after
    rw [← hwith, ← hwithout] at hend'
    rw [Int.natCast_eq_zero, Int.natCast_eq_zero]
    exact ⟨hend.error, hend'.error⟩
  · have hne := error_foldl_ne (hunreadable hunread) after
    rw [← hwith] at hne
    exact Int.natCast_ne_zero.mpr hne

/-- The separator stands only in a comment, so the line between the two values cannot be read. -/
theorem construct_insert_line_unreadable :
    ∃ (reader : INIReader) (e e' : Int),
      INIReader.construct (some (lit "[a]\nx=1" ++ 10 :: (lit "oops ; a=b" ++ 10 :: lit "y=2"))) =
        .ok (reader, e) ∧
      INIReader.construct (some (lit "[a]\nx=1" ++ 10 :: lit "y=2")) = .ok (reader, e') ∧ e ≠ 0 := by
  have hline : Unreadable (lit "oops ; a=b") :=
    @Unreadable.assignment _ 111 (lit "ops ") (lit "; a=b") (by decide)
      (Or.inr ⟨32, lit " a=b", by decide, by decide, by decide⟩) (by decide) (by decide) (by decide)
      (by decide)
  obtain ⟨reader, e, e', hwith, hwithout, -, herror⟩ :=
    construct_insert_line (lit "[a]\nx=1") (lit "oops ; a=b") (lit "y=2") (by decide) (by decide)
      (Or.inr hline)
  exact ⟨reader, e, e', hwith, hwithout, herror hline⟩

/-! ## Lines that do not fit -/

theorem lines_append_of_newline {before : StdString} (h : before = [] ∨ ∃ b, before = b ++ [10])
    (text : StdString) : lines 10 199 (before ++ text) = lines 10 199 before ++ lines 10 199 text := by
  rcases h with rfl | ⟨b, rfl⟩
  · rw [lines_nil, List.nil_append, List.nil_append]
  · rw [List.append_assoc, List.singleton_append, lines_append_cons (by decide)]

/-- A line that does not fit in the buffer is read as if it were broken behind its first 199
    characters. So the end of a long comment is read as a line of its own. -/
theorem construct_break_line (before piece rest : StdString)
    (hbefore : before = [] ∨ ∃ b, before = b ++ [10]) (h10 : 10 ∉ piece) (hlength : piece.length = 199) :
    ∃ (reader : INIReader) (e e' : Int),
      INIReader.construct (some (before ++ (piece ++ rest))) = .ok (reader, e) ∧
      INIReader.construct (some (before ++ (piece ++ 10 :: rest))) = .ok (reader, e') ∧
      (e = 0 ↔ e' = 0) := by
  have hwhole : iniParsed (before ++ (piece ++ rest)) =
      (lines 10 199 rest).foldl IniParser.parseLine ((iniParsed before).parseLine piece) := by
    unfold iniParsed
    rw [lines_append_of_newline hbefore, lines_append_full (by decide) h10 hlength, List.foldl_append,
      List.foldl_cons]
  have hbroken : iniParsed (before ++ (piece ++ 10 :: rest)) =
      (lines 10 199 rest).foldl IniParser.parseLine
        (((iniParsed before).parseLine piece).parseLine ([] ++ [10])) := by
    unfold iniParsed
    rw [lines_append_of_newline hbefore, lines_append_full (by decide) h10 hlength, List.foldl_append,
      List.foldl_cons, ← List.nil_append (10 :: rest), lines_append_sep (by simp) (by decide),
      List.foldl_cons]
  have hpos : 0 < ((iniParsed before).parseLine piece).lineno := by
    rw [lineno_parseLine _ h10]
    exact Nat.succ_pos _
  rw [parseLine_append_newline, parseLine_nil] at hbroken
  obtain ⟨hforth, hback⟩ := similar_count hpos
  have hend := hforth.foldl rest
  have hend' := hback.foldl rest
  rw [← hwhole, ← hbroken] at hend hend'
  refine ⟨_, _, ((iniParsed (before ++ (piece ++ 10 :: rest))).error : Int), iniReader_construct_some _,
    ?_, ?_⟩
  · rw [← hend.reader]
    exact iniReader_construct_some _
  · rw [Int.natCast_eq_zero, Int.natCast_eq_zero]
    exact ⟨hend'.error, hend.error⟩

/-- The end of a comment of 203 characters is read as a value. -/
theorem construct_break_line_comment :
    ∃ (reader : INIReader) (e e' : Int),
      INIReader.construct (some ([] ++ (List.replicate 199 59 ++ lit "x=1\n"))) = .ok (reader, e) ∧
      INIReader.construct (some ([] ++ (List.replicate 199 59 ++ 10 :: lit "x=1\n"))) = .ok (reader, e') ∧
      (e = 0 ↔ e' = 0) :=
  construct_break_line [] (List.replicate 199 59) (lit "x=1\n") (Or.inl rfl)
    (fun hmem => absurd (List.eq_of_mem_replicate hmem) (by decide)) List.length_replicate

end Valoserveri
