import Valoserveri.Reachable

/-!
# The monitor page

`monitor.html` passes each message to `JSON.parse` and shows the tag and a box for each light. What
`JSON.parse` makes of a text that is not the text of an object of strings and unsigned numbers does not
matter here; `readObject` is a reader that refuses all other texts, and those with escapes.
-/

namespace Valoserveri

/-! ## The page -/

/-- The object `JSON.parse` gives: the values of its properties. -/
abbrev JsObject := StdString → Option JsonValue

/-- The object with the given entries. -/
def Json.toObject (j : Json) : JsObject := fun key => j.lookup key

/-- A property that is a string. -/
def JsObject.text (data : JsObject) (key : StdString) : Option StdString :=
  match data key with
  | some (.string s) => some s
  | _ => none

/-- What the page shows: the tag, and the text `lightStatus` of each light. -/
structure Viz where
  tag : StdString
  lights : List StdString
deriving Repr, DecidableEq

/-- `updateViz`. The variable `lastNumLights` stays `null`, since the assignment at the end of the
    function is to `lastNumlights`; so every message rebuilds all boxes. -/
def updateViz (data : JsObject) : Option Viz :=
  match data (lit "numLights") with
  | some (.number numLights) =>
    (data.text (lit "tag")).bind fun tag =>
      ((List.range numLights).mapM fun i => data.text (lit "light" ++ stdToString i)).bind fun lights =>
        some { tag, lights }
  | _ => none

/-- The value of a hexadecimal digit. -/
def hexValue (c : Int8) : Option Nat :=
  if 48 ≤ c ∧ c ≤ 57 then some (c.toInt.toNat - 48)
  else if 97 ≤ c ∧ c ≤ 102 then some (c.toInt.toNat - 87)
  else if 65 ≤ c ∧ c ≤ 70 then some (c.toInt.toNat - 55)
  else none

/-- The byte of two hexadecimal digits. -/
def hexByte (high low : Int8) : Option UInt8 :=
  (hexValue high).bind fun h => (hexValue low).bind fun l => some (UInt8.ofNat (16 * h + l))

/-- The colour of a box whose style is `background: #` followed by six hexadecimal digits. -/
def boxColor : StdString → Option Color
  | [r₁, r₀, g₁, g₀, b₁, b₀] =>
    (hexByte r₁ r₀).bind fun red => (hexByte g₁ g₀).bind fun green => (hexByte b₁ b₀).bind fun blue =>
      some { red, green, blue }
  | _ => none

/-! ## A reader for objects -/

/-- The text behind the character `c`. -/
def expect (c : Int8) : StdString → Option StdString
  | [] => none
  | d :: text => if d = c then some text else none

/-- A string between quotes. -/
def readString (text : StdString) : Option (StdString × StdString) :=
  (expect 34 text).bind fun text =>
    (expect 34 (text.dropWhile fun c => SafeChar c)).bind fun rest =>
      some (text.takeWhile fun c => SafeChar c, rest)

/-- An unsigned number. -/
def readNumber (text : StdString) : Option (Nat × StdString) :=
  let digits := text.takeWhile isDigit
  if digits = [] then none else some (digitsValue digits, text.dropWhile isDigit)

/-- A value of an object. -/
def readValue (text : StdString) : Option (JsonValue × StdString) :=
  match readString text with
  | some (s, rest) => some (.string s, rest)
  | none => (readNumber text).map fun r => (.number r.1, r.2)

/-- One entry of an object. -/
def readEntry (text : StdString) : Option ((StdString × JsonValue) × StdString) :=
  (readString text).bind fun key =>
    (expect 58 key.2).bind fun text =>
      (readValue text).bind fun value => some ((key.1, value.1), value.2)

/-- Entries separated by commas, at most `fuel` of them. -/
def readEntries : Nat → StdString → Option (Json × StdString)
  | 0, _ => none
  | fuel + 1, text =>
    (readEntry text).bind fun entry =>
      match expect 44 entry.2 with
      | none => some ([entry.1], entry.2)
      | some text => (readEntries fuel text).bind fun rest => some (entry.1 :: rest.1, rest.2)

/-- The object that a text consists of. -/
def readObject (text : StdString) : Option Json :=
  (expect 123 text).bind fun text =>
    if text = [125] then some []
    else
      (readEntries text.length text).bind fun entries =>
        if entries.2 = [125] then some entries.1 else none

/-- `readObject` in the place of `JSON.parse`. -/
def parseObject (text : StdString) : Option JsObject :=
  (readObject text).map Json.toObject

end Valoserveri
