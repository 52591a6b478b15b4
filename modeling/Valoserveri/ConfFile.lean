import Valoserveri.Ini

/-!
# What a configuration file says

A configuration file is a sequence of lines: comments, headers of sections, names with values, and
further lines of a value. There are many ways to lay out each of them. The value of a key is made of
the values the file gives under it, in order, on a line each.
-/

namespace Valoserveri

/-- What a line of a configuration file says. -/
inductive ConfLine where
  /-- Nothing: a comment or a blank line. -/
  | note
  /-- A section begins. -/
  | header (name : StdString)
  /-- A name is given a value. -/
  | entry (name value : StdString)
  /-- The value before it goes on. -/
  | more (value : StdString)
deriving Repr, DecidableEq

/-! ## The values of the keys -/

/-- The keys and values of the lines behind a line with the given section and name. -/
def ConfLine.pairs : StdString → StdString → List ConfLine → List (StdString × StdString)
  | _, _, [] => []
  | section_, name, note :: file => pairs section_ name file
  | _, _, header section_ :: file => pairs section_ [] file
  | section_, _, entry name value :: file =>
    (INIReader.makeKey section_ name, value) :: pairs section_ name file
  | section_, name, more value :: file =>
    (INIReader.makeKey section_ name, value) :: pairs section_ name file

/-- The values given under a key. -/
def valuesUnder (ps : List (StdString × StdString)) (key : StdString) : List StdString :=
  (ps.filter (·.1 = key)).map Prod.snd

/-- Values joined into one, from the first that is not empty on. -/
def joinValues (vs : List StdString) : StdString := [10].intercalate (vs.dropWhile (· = []))

/-- The value of a key. -/
def valueOf (ps : List (StdString × StdString)) (key : StdString) : Option StdString :=
  if valuesUnder ps key = [] then none else some (joinValues (valuesUnder ps key))

/-- A value goes on only behind a value of its section. -/
def ConfLine.wellPlaced : Bool → List ConfLine → Bool
  | _, [] => true
  | open_, note :: file => wellPlaced open_ file
  | _, header _ :: file => wellPlaced false file
  | _, entry _ _ :: file => wellPlaced true file
  | open_, more _ :: file => open_ && wellPlaced open_ file

/-! ## Layout -/

/-- There is no semicolon behind whitespace, where an inline comment would begin. -/
def NoComment (s : StdString) : Prop := s.IsChain fun c d => d = 59 → isSpace c = false

instance (s : StdString) : Decidable (NoComment s) :=
  inferInstanceAs (Decidable (s.IsChain _))

/-- Whitespace within a line. -/
def Blank (s : StdString) : Prop := ∀ c ∈ s, isSpace c = true ∧ c ≠ 10

instance (s : StdString) : Decidable (Blank s) :=
  List.decidableBAll (fun c => isSpace c = true ∧ c ≠ 10) s

/-- Text that is not cut short by a zero, a line break or a comment. -/
def Plain (s : StdString) : Prop := 0 ∉ s ∧ 10 ∉ s ∧ NoComment s

instance (s : StdString) : Decidable (Plain s) := inferInstanceAs (Decidable (_ ∧ _ ∧ _))

/-- Text without whitespace around it. -/
def Trimmed (s : StdString) : Prop := lskip s = s ∧ rstrip s = s

instance (s : StdString) : Decidable (Trimmed s) := inferInstanceAs (Decidable (_ ∧ _))

/-- What may stand behind a value: whitespace, and a comment if there is a value before it. -/
def Trailer (value tail : StdString) : Prop :=
  Blank tail ∨ value ≠ [] ∧ ∃ pad rest, tail = pad ++ 59 :: rest ∧ Blank pad ∧ pad ≠ [] ∧ 10 ∉ rest

/-- The name of a section. -/
structure SectionName (name : StdString) : Prop where
  plain : Plain name
  bracket : 93 ∉ name
  length : name.length < MAX_SECTION

/-- The name of a value. -/
structure EntryName (name : StdString) : Prop where
  plain : Plain name
  trimmed : Trimmed name
  nonempty : name ≠ []
  /-- It is not taken for a comment or a header. -/
  first : name.head? ≠ some 59 ∧ name.head? ≠ some 35 ∧ name.head? ≠ some 91
  separator : 61 ∉ name ∧ 58 ∉ name
  length : name.length < MAX_NAME
  unmarked : name.take 3 ≠ utf8Bom

/-- A line says something in one of the ways to lay it out. -/
inductive ConfLine.Laid : ConfLine → StdString → Prop
  | blank {pad : StdString} : Blank pad → Laid note pad
  | comment {pad rest : StdString} {c : Int8} : Blank pad → c = 59 ∨ c = 35 → 10 ∉ rest →
      Laid note (pad ++ c :: rest)
  | header {name rest : StdString} : SectionName name → 10 ∉ rest →
      Laid (header name) (91 :: name ++ 93 :: rest)
  | entry {name pad pad' value tail : StdString} {c : Int8} : EntryName name → Blank pad →
      c = 61 ∨ c = 58 → Blank pad' → Plain value → Trimmed value → Trailer value tail →
      Laid (entry name value) (name ++ pad ++ c :: (pad' ++ value ++ tail))
  | more {pad value tail : StdString} : Blank pad → pad ≠ [] → Plain value → Trimmed value →
      value ≠ [] → value.head? ≠ some 59 ∧ value.head? ≠ some 35 → Trailer value tail →
      Laid (more value) (pad ++ value ++ tail)

end Valoserveri
