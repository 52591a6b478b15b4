import Valoserveri.Config
import Valoserveri.Library.Lines
import Mathlib.Data.List.DropRight

/-!
# The configuration file

`ini_parse_stream` reads the configuration file line by line into a buffer of 200 characters and calls
`INIReader::ValueHandler` for each name and value it finds. A line with leading whitespace continues
the value before it, lines it cannot read are skipped, and the number of the first of them is all that
is reported.
-/

namespace Valoserveri

open Lines

/-- `INI_MAX_LINE`, the size of the buffer for a line. -/
def INI_MAX_LINE : Nat := 200

/-- `MAX_SECTION`, the size of the buffer for the name of a section. -/
def MAX_SECTION : Nat := 50

/-- `MAX_NAME`, the size of the buffer for the name of the last value. -/
def MAX_NAME : Nat := 50

/-- The UTF-8 byte order mark. -/
def utf8Bom : StdString := [-17, -69, -65]

/-! ## Strings in a buffer -/

/-- The string that starts at a place of a buffer: it ends before the first zero. -/
def cString (buffer : StdString) : StdString := buffer.takeWhile (· ≠ 0)

/-- `fgets(line, num, stream)`: the line that is read and what is left of the stream, or nothing at its
    end. -/
def fgets (num : Nat) (stream : StdString) : Option (StdString × StdString) :=
  if stream = [] then none else some (stream.splitAt (lineLength 10 (num - 1) stream))

/-- `rstrip`. -/
def rstrip (s : StdString) : StdString := s.rdropWhile isSpace

/-- `lskip`. -/
def lskip (s : StdString) : StdString := s.dropWhile isSpace

/-- The loop of `find_chars_or_comment`: the number of characters it goes over. A null pointer for
    `chars` is the empty string. -/
def findCharsOrCommentFrom (chars : StdString) : Bool → StdString → Nat
  | _, [] => 0
  | wasSpace, c :: s =>
    if c ∈ chars ∨ wasSpace = true ∧ c = 59 then 0
    else findCharsOrCommentFrom chars (isSpace c) s + 1

/-- `find_chars_or_comment`. -/
def findCharsOrComment (s chars : StdString) : Nat := findCharsOrCommentFrom chars false s

/-- `strncpy0`: what fits in the destination. -/
def strncpy0 (src : StdString) (size : Nat) : StdString := src.take (size - 1)

/-- The value in front of an inline comment. -/
def beforeComment (s : StdString) : StdString := rstrip (s.take (findCharsOrComment s []))

/-! ## The parser -/

/-- `INIReader::ValueHandler`: a further value under a key is appended on a new line. -/
def INIReader.valueHandler (reader : INIReader) (section_ name value : StdString) : INIReader :=
  let key := makeKey section_ name
  let old := (reader.values key).getD []
  { values := Function.update reader.values key
      (some ((if old ≠ [] then old ++ lit "\n" else old) ++ value)) }

/-- The variables of `ini_parse_stream`, and the reader it calls. -/
structure IniParser where
  section_ : StdString := []
  prevName : StdString := []
  lineno : Nat := 0
  error : Nat := 0
  reader : INIReader := { values := fun _ => none }

/-- `handler(user, section, name, value)`, which always succeeds. -/
def IniParser.handle (p : IniParser) (name value : StdString) : IniParser :=
  { p with reader := p.reader.valueHandler p.section_ name value }

/-- The first line that cannot be read is remembered. -/
def IniParser.fail (p : IniParser) : IniParser :=
  { p with error := if p.error = 0 then p.lineno else p.error }

/-- What is done with a line without the whitespace around it. `indented` tells whether there was
    something in front of it. -/
def IniParser.parseStart (p : IniParser) (indented : Bool) (start : StdString) : IniParser :=
  if start.head? = some 59 ∨ start.head? = some 35 then
    -- a comment
    p
  else if p.prevName ≠ [] ∧ start ≠ [] ∧ indented = true then
    -- a continuation of the value before it
    p.handle p.prevName (beforeComment start)
  else if start.head? = some 91 then
    let rest := start.tail
    let stop := findCharsOrComment rest (lit "]")
    if rest[stop]? = some 93 then
      { p with section_ := strncpy0 (rest.take stop) MAX_SECTION, prevName := [] }
    else p.fail
  else if start ≠ [] then
    let stop := findCharsOrComment start (lit "=:")
    if start[stop]? = some 61 ∨ start[stop]? = some 58 then
      let name := rstrip (start.take stop)
      let value := beforeComment (lskip (start.drop (stop + 1)))
      { p with prevName := strncpy0 name MAX_NAME }.handle name value
    else p.fail
  else p

/-- The body of the loop of `ini_parse_stream`, with the line in its buffer. -/
def IniParser.parseLine (p : IniParser) (buffer : StdString) : IniParser :=
  let p := { p with lineno := p.lineno + 1 }
  let line := cString buffer
  let marked := decide (p.lineno = 1 ∧ line.take 3 = utf8Bom)
  let text := rstrip (if marked = true then line.drop 3 else line)
  p.parseStart (marked || decide ((lskip text).length < text.length)) (lskip text)

/-- The loop of `ini_parse_stream`. The loop has no bound of its own; here it has `passes` passes
    left. -/
def iniParseLoop : Nat → StdString → IniParser → Except Halt IniParser
  | 0, _, _ => .error .diverges
  | passes + 1, stream, p =>
    match fgets INI_MAX_LINE stream with
    | none => .ok p
    | some (line, stream) => iniParseLoop passes stream (p.parseLine line)

/-- `ini_parse_stream` on a file with the given content. Every pass but the last reads a character. -/
def iniParseStream (stream : StdString) : Except Halt IniParser :=
  iniParseLoop (stream.length + 1) stream {}

/-- `INIReader::INIReader`: the values of the file and the result of `ini_parse`. The file's content is
    `none` if it cannot be opened. -/
def INIReader.construct : Option StdString → Except Halt (INIReader × Int)
  | none => .ok ({ values := fun _ => none }, -1)
  | some stream => (iniParseStream stream).bind fun p => .ok (p.reader, p.error)

/-- `Config::Config`. The result of `ini_parse` is never looked at. -/
def Config.construct (file : Option StdString) : Except Halt Config :=
  (INIReader.construct file).bind fun (reader, _) => .ok { ini := reader }

end Valoserveri
