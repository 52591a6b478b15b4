import Valoserveri.Machine

/-!
# Serializing JSON objects

The part of `nlohmann::json` the server uses: objects whose values are unsigned numbers and strings,
and `dump` in its compact form, with `ensure_ascii` off and the strict error handler. Strings are
checked for UTF-8 by the automaton of the library while they are escaped.
-/

namespace Valoserveri

/-- A value of an object. -/
inductive JsonValue where
  | number (n : Nat)
  | string (s : StdString)
deriving Repr, DecidableEq

/-- An object: a `std::map`, whose entries are sorted by key. -/
abbrev Json := List (StdString × JsonValue)

/-- `std::less<std::string>`, which compares the characters as unsigned bytes. -/
def keyLess : StdString → StdString → Bool
  | _, [] => false
  | [], _ :: _ => true
  | a :: as, b :: bs => a.toUInt8 < b.toUInt8 || (a == b && keyLess as bs)

/-- `j[key] = value`. -/
def Json.set (key : StdString) (value : JsonValue) : Json → Json
  | [] => [(key, value)]
  | (k, v) :: j =>
    if k = key then (key, value) :: j
    else if keyLess key k then (key, value) :: (k, v) :: j
    else (k, v) :: Json.set key value j

/-! ## Escaping strings -/

/-- One hexadecimal digit; the letters start behind `letters`. -/
def hexDigit (letters n : Nat) : Int8 := Int8.ofNat (if n < 10 then 48 + n else letters + (n - 10))

/-- Two lower-case hexadecimal digits: `{:02x}`. -/
def hex2 (b : UInt8) : StdString := [hexDigit 97 (b.toNat / 16), hexDigit 97 (b.toNat % 16)]

/-- Two upper-case hexadecimal digits: `%.2X`. -/
def hex2Upper (b : UInt8) : StdString := [hexDigit 65 (b.toNat / 16), hexDigit 65 (b.toNat % 16)]

/-- The table of the UTF-8 decoder: the classes of the 256 bytes, then the transitions. -/
def utf8d : List Nat :=
  List.replicate 128 0 ++                                      -- 00..7F
  List.replicate 16 1 ++ List.replicate 16 9 ++                -- 80..9F
  List.replicate 32 7 ++                                       -- A0..BF
  List.replicate 2 8 ++ List.replicate 30 2 ++                 -- C0..DF
  [0xA, 3, 3, 3, 3, 3, 3, 3, 3, 3, 3, 3, 3, 4, 3, 3] ++         -- E0..EF
  [0xB, 6, 6, 6, 5, 8, 8, 8, 8, 8, 8, 8, 8, 8, 8, 8] ++         -- F0..FF
  [0, 1, 2, 3, 5, 8, 7, 1, 1, 1, 4, 6, 1, 1, 1, 1] ++           -- s0
  [1, 1, 1, 1, 1, 1, 1, 1, 1, 1, 1, 1, 1, 1, 1, 1] ++
  [1, 0, 1, 1, 1, 1, 1, 0, 1, 0, 1, 1, 1, 1, 1, 1] ++           -- s1..s2
  [1, 2, 1, 1, 1, 1, 1, 2, 1, 2, 1, 1, 1, 1, 1, 1] ++
  [1, 1, 1, 1, 1, 1, 1, 2, 1, 1, 1, 1, 1, 1, 1, 1] ++           -- s3..s4
  [1, 2, 1, 1, 1, 1, 1, 1, 1, 2, 1, 1, 1, 1, 1, 1] ++
  [1, 1, 1, 1, 1, 1, 1, 3, 1, 3, 1, 1, 1, 1, 1, 1] ++           -- s5..s6
  [1, 3, 1, 1, 1, 1, 1, 3, 1, 3, 1, 1, 1, 1, 1, 1] ++
  [1, 3, 1, 1, 1, 1, 1, 1, 1, 1, 1, 1, 1, 1, 1, 1]              -- s7..s8

/-- One step of the UTF-8 decoder: the new state, where 0 accepts and 1 rejects, and the new code
    point. -/
def decode (state codep : Nat) (byte : UInt8) : Nat × Nat :=
  let type := utf8d.getD byte.toNat 0
  let codep :=
    if state ≠ 0 then (byte.toNat &&& 0x3f) ||| (codep <<< 6) % 2 ^ 32
    else (0xff >>> type) &&& byte.toNat
  (utf8d.getD (256 + state * 16 + type) 0, codep)

/-- What is written for a code point that is complete with the character `c`. -/
def escape (codep : Nat) (c : Int8) : StdString :=
  match codep with
  | 0x08 => lit "\\b"
  | 0x09 => lit "\\t"
  | 0x0a => lit "\\n"
  | 0x0c => lit "\\f"
  | 0x0d => lit "\\r"
  | 0x22 => lit "\\\""
  | 0x5c => lit "\\\\"
  | _ => if codep ≤ 0x1f then lit "\\u00" ++ hex2 (UInt8.ofNat codep) else [c]

/-- `type_error.316`. -/
def invalidUtf8 (what : StdString) : Halt :=
  .typeError 316 (lit "[json.exception.type_error.316] " ++ what)

/-- The loop of `dump_escaped` over the string `s`, at index `i`, having written `out`. -/
def dumpEscapedLoop (s : StdString) :
    StdString → Nat → Nat → Nat → StdString → Except Halt StdString
  | [], _, state, _, out =>
    if state = 0 then .ok out
    else .error (invalidUtf8 (lit "incomplete UTF-8 string; last byte: 0x" ++
      hex2Upper (s.getLastD 0).toUInt8))
  | c :: cs, i, state, codep, out =>
    let next := decode state codep c.toUInt8
    if next.1 = 0 then dumpEscapedLoop s cs (i + 1) next.1 next.2 (out ++ escape next.2 c)
    else if next.1 = 1 then
      .error (invalidUtf8 (lit "invalid UTF-8 byte at index " ++ stdToString i ++ lit ": 0x" ++
        hex2Upper c.toUInt8))
    else dumpEscapedLoop s cs (i + 1) next.1 next.2 (out ++ [c])

/-- `dump_escaped`. -/
def dumpEscaped (s : StdString) : Except Halt StdString := dumpEscapedLoop s s 0 0 0 []

/-! ## Dumping objects -/

/-- A string between quotes. -/
def dumpString (s : StdString) : Except Halt StdString :=
  (dumpEscaped s).bind fun escaped => .ok (34 :: (escaped ++ [34]))

/-- `dump` on a value. -/
def JsonValue.dump : JsonValue → Except Halt StdString
  | .number n => .ok (stdToString n)
  | .string s => dumpString s

/-- One entry of an object. -/
def dumpEntry (entry : StdString × JsonValue) : Except Halt StdString :=
  (dumpString entry.1).bind fun key =>
    entry.2.dump.bind fun value => .ok (key ++ 58 :: value)

/-- The entries of an object, separated by commas. -/
def dumpEntries : Json → Except Halt StdString
  | [] => .ok []
  | [entry] => dumpEntry entry
  | entry :: rest =>
    (dumpEntry entry).bind fun first => (dumpEntries rest).bind fun others => .ok (first ++ 44 :: others)

/-- `json::dump`. -/
def Json.dump (j : Json) : Except Halt StdString :=
  (dumpEntries j).bind fun entries => .ok (123 :: (entries ++ [125]))

end Valoserveri
