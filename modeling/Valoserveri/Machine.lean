import Mathlib.Data.List.Basic
import Mathlib.Algebra.Ring.Int.Defs
import Mathlib.Algebra.Ring.Nat

/-!
# The C++ machine the server runs on

The server is built with g++ for x86-64, where `char` is signed, `int` and `unsigned int` have 32
bits and `size_t` has 64. Buffers and strings are sequences of `char`, hence of `Int8`. Index
arithmetic is carried out on integers, with the wrap-around of the C++ types written out.

Code that does not return normally stops the computation with a `Halt`.
-/

namespace Valoserveri

/-- A `std::string`, or the bytes of a buffer of `char`. -/
abbrev StdString := List Int8

/-- The characters of an ASCII string literal. -/
def lit (s : String) : StdString := s.toList.map fun c => Int8.ofNat c.toNat

/-- The bytes of a buffer as `char`s: `reinterpret_cast<const char *>`. -/
def asChars (bytes : List UInt8) : StdString := bytes.map UInt8.toInt8

/-- The ways in which control leaves the server's code other than by returning normally. -/
inductive Halt where
  /-- A precondition of `nonstd::span` is violated, which calls `std::terminate`. -/
  | contractViolation
  /-- A signed addition overflows, which is undefined. -/
  | signedOverflow
  /-- `std::length_error`, from a string built over an ill-ordered range. -/
  | lengthError
  /-- A loop whose counter has taken all its values without leaving the loop. -/
  | diverges
  /-- `std::invalid_argument`. -/
  | invalidArgument (what : StdString)
  /-- `std::out_of_range`. -/
  | outOfRange (what : StdString)
  /-- `std::runtime_error`. -/
  | runtimeError (what : StdString)
  /-- `nlohmann::detail::type_error`. -/
  | typeError (id : Nat) (what : StdString)
  /-- A failed `assert`. -/
  | assertion
  /-- A libwebsockets function is called on a connection that is closed. -/
  | danglingConnection
  /-- `poll` fails and `Serveri::run` returns. -/
  | pollFailed
deriving Repr, DecidableEq

/-! ## Integer conversions -/

/-- Conversion to `int`, modulo `2^32`. -/
def toInt (x : Int) : Int := x.bmod (2 ^ 32)

/-- Conversion to `short`, modulo `2^16`. -/
def toShort (x : Int) : Int := x.bmod (2 ^ 16)

/-- Conversion to `unsigned int`. -/
def toUInt (x : Int) : Nat := (x % 2 ^ 32).toNat

/-- Conversion to `size_t`. -/
def toSize (x : Int) : Nat := (x % 2 ^ 64).toNat

/-- `a + b` on `int`. -/
def addInt (a b : Int) : Except Halt Int :=
  if -2 ^ 31 ≤ a + b ∧ a + b < 2 ^ 31 then .ok (a + b) else .error .signedOverflow

/-- Conversion of a `char` to `unsigned int`: the value is sign-extended. -/
def charToUInt (c : Int8) : UInt32 := c.toInt32.toUInt32

/-! ## Spans and strings -/

/-- `packet[idx]` on a `nonstd::span`, with its precondition `idx < size()`. -/
def spanAt (packet : StdString) (idx : Nat) : Except Halt Int8 :=
  match packet[idx]? with
  | some c => .ok c
  | none => .error .contractViolation

/-- `packet.first(count)` on a `nonstd::span`, with its precondition `count <= size()`. -/
def spanFirst (packet : StdString) (count : Nat) : Except Halt StdString :=
  if count ≤ packet.length then .ok (packet.take count) else .error .contractViolation

/-- `std::string(&packet[first], &packet[last])`. -/
def stringRange (packet : StdString) (first last : Nat) : Except Halt StdString :=
  if last < first then .error .lengthError else .ok ((packet.drop first).take (last - first))

/-- `std::to_string` on an unsigned value. -/
def stdToString (n : Nat) : StdString := (Nat.toDigits 10 n).map fun c => Int8.ofNat c.toNat

end Valoserveri
