import Valoserveri.Machine

/-!
# Reading the configuration

`Config` wraps an `INIReader`, which keeps the values of the configuration file under the key
`section=name` in lower case. Numbers are parsed with `std::stoi`, so a value is read up to its first
character that is not a digit.
-/

namespace Valoserveri

/-- The values `INIReader` has read from the configuration file. -/
structure INIReader where
  values : StdString → Option StdString

/-- `::tolower` in the C locale. -/
def tolower (c : Int8) : Int8 := if 65 ≤ c ∧ c ≤ 90 then c + 32 else c

/-- The key under which a value is stored. -/
def INIReader.makeKey (section_ name : StdString) : StdString :=
  (section_ ++ lit "=" ++ name).map tolower

/-- `INIReader::Get`. -/
def INIReader.get (ini : INIReader) (section_ name defaultValue : StdString) : StdString :=
  (ini.values (makeKey section_ name)).getD defaultValue

/-- The configuration, as read from `valoserveri.conf`. -/
structure Config where
  ini : INIReader

/-- A configuration with the given keys and values. -/
def Config.ofEntries (entries : List (String × String)) : Config where
  ini := { values := fun key => (entries.find? fun entry => lit entry.1 == key).map (lit ·.2) }

/-- `isspace` in the C locale. -/
def isSpace (c : Int8) : Bool := c == 32 || (9 ≤ c && c ≤ 13)

/-- `isdigit`. -/
def isDigit (c : Int8) : Bool := 48 ≤ c && c ≤ 57

/-- The value of a sequence of decimal digits. -/
def digitsValue (ds : StdString) : Nat := ds.foldl (fun n d => 10 * n + (d.toInt.toNat - 48)) 0

/-- The sign and the leading digits of a numeral, as `strtol` reads them. -/
def signedDigits (s : StdString) : Bool × StdString :=
  match s with
  | [] => (false, [])
  | c :: rest =>
    if c = 45 then (true, rest.takeWhile isDigit)
    else if c = 43 then (false, rest.takeWhile isDigit)
    else (false, s.takeWhile isDigit)

/-- `std::stoi` in base 10. -/
def stoi (s : StdString) : Except Halt Int :=
  let (negative, digits) := signedDigits (s.dropWhile isSpace)
  if digits = [] then .error (.invalidArgument (lit "stoi"))
  else
    let value : Int := if negative then -(digitsValue digits : Int) else digitsValue digits
    if value < -2 ^ 31 ∨ 2 ^ 31 ≤ value then .error (.outOfRange (lit "stoi")) else .ok value

/-- `Config::get` for strings. -/
def Config.get (config : Config) (section_ key defaultValue : StdString) : StdString :=
  config.ini.get section_ key defaultValue

/-- `Config::get` for unsigned integers. -/
def Config.getUnsigned (config : Config) (section_ key : StdString) (defaultValue : Nat) :
    Except Halt Nat :=
  let value := config.ini.get section_ key []
  if value = [] then .ok defaultValue
  else
    (stoi value).bind fun parsed =>
      if parsed < 0 then
        .error (.runtimeError
          (lit "Negative value where unsigned expected in config " ++ section_ ++ lit "." ++ key))
      else .ok parsed.toNat

/-! ## Lists -/

/-- `s.find_first_of(c)`, where `none` is `npos`. -/
def findFirstOf (s : StdString) (c : Int8) : Option Nat := s.findIdx? fun d => d = c

/-- `s.substr(pos, count)`, where `none` is the default count, the rest of the string. -/
def substr (s : StdString) (pos : Nat) (count : Option Nat) : Except Halt StdString :=
  if s.length < pos then .error (.outOfRange (lit "basic_string::substr"))
  else .ok ((s.drop pos).take (count.getD s.length))

/-- The loop of `Config::getList`, having found `result`. The loop has no bound of its own; here it has
    `passes` passes left. -/
def getListLoop : Nat → StdString → List StdString → Except Halt (List StdString)
  | 0, _, _ => .error .diverges
  | passes + 1, raw, result =>
    match findFirstOf raw 44 with
    | some commaPos =>
      (if commaPos ≠ 0 then
        (substr raw 0 (some commaPos)).bind fun item => .ok (result ++ [item])
      else .ok result).bind fun result =>
        (substr raw (commaPos + 1) none).bind fun raw => getListLoop passes raw result
    | none => .ok (if raw ≠ [] then result ++ [raw] else result)

/-- `Config::getList`. Every pass but the last takes off a comma, so that one pass more than the value
    has characters is enough. -/
def Config.getList (config : Config) (section_ key : StdString) : Except Halt (List StdString) :=
  let raw := config.get section_ key []
  if raw = [] then .ok [] else getListLoop (raw.length + 1) raw []

end Valoserveri
