import Valoserveri.LightPacket

/-!
# The packet format

What a packet means, stated on its bytes without offsets: the records of its body are read off one
after the other. `Proofs/LightPacketProofs` shows that the parser computes this.
-/

namespace Valoserveri

/-- The commands in a body: the complete records of type 1, in order. Records of other types and an
    incomplete last record are skipped. -/
def decodeRecords : StdString → List LightColor
  | type :: index :: _extension :: red :: green :: blue :: rest =>
    let ls := decodeRecords rest
    if type = 1 then
      { index := charToUInt index
        color := { red := red.toUInt8, green := green.toUInt8, blue := blue.toUInt8 } } :: ls
    else ls
  | _ => []

/-- A packet that is rejected: it is too small, or does not start with the version and the marker. -/
def Rejected (packet : StdString) : Prop :=
  packet.length < 3 ∨ packet[0]? ≠ some 1 ∨ packet[1]? ≠ some 0

instance (packet : StdString) : Decidable (Rejected packet) := instDecidableOr

/-- What a packet means. A tag that is not ended is left out, and the records are then taken to start
    behind its first byte. -/
def decodePacket : StdString → LightPacket
  | version :: marker :: c :: rest =>
    if version = 1 ∧ marker = 0 then
      if 0 ∈ c :: rest then
        { tag := (c :: rest).takeWhile (· ≠ 0)
          lights := decodeRecords ((c :: rest).dropWhile (· ≠ 0)).tail }
      else { lights := decodeRecords rest }
    else {}
  | _ => {}

/-- A packet with the given tag and body. -/
def taggedPacket (tag body : StdString) : StdString := 1 :: 0 :: (tag ++ 0 :: body)

/-! ## Positions in a packet -/

/-- The tag of a packet ends at its first zero byte behind the marker. -/
def TagEnd (packet : StdString) (t : Nat) : Prop :=
  2 ≤ t ∧ packet[t]? = some 0 ∧ ∀ j, 2 ≤ j → j < t → packet[j]? ≠ some 0

/-- The six bytes at an offset. -/
def recordAt (packet : StdString) (offset : Nat) : StdString := (packet.drop offset).take 6

/-- A body, cut into its complete records. -/
def records (body : StdString) : List StdString :=
  (List.range (body.length / 6)).map fun i => recordAt body (6 * i)

/-- The command of a single record, if it is of type 1. The extension byte has no meaning. -/
def decodeRecord : StdString → Option LightColor
  | [type, index, _extension, red, green, blue] =>
    if type = 1 then
      some { index := charToUInt index
             color := { red := red.toUInt8, green := green.toUInt8, blue := blue.toUInt8 } }
    else none
  | _ => none

/-- Two records that mean the same: both are to be skipped, or they differ at most in their extension
    byte. -/
def SameRecord (record other : StdString) : Prop :=
  record.head? ≠ some 1 ∧ other.head? ≠ some 1 ∨ record.eraseIdx 2 = other.eraseIdx 2

/-- The lights are decoded from records that lie one after the other behind the end of the tag. -/
def DecodedBehindTag (packet : StdString) (lights : List LightColor) : Prop :=
  lights = [] ∨ ∃ t offsets, TagEnd packet t ∧ (∀ o ∈ offsets, t < o) ∧
    offsets.Pairwise (fun o o' => o + 6 ≤ o') ∧
    List.Forall₂ (fun o l => decodeRecord (recordAt packet o) = some l) offsets lights

end Valoserveri
