import Valoserveri.DMXController

/-!
# Light packets

The packets the clients send and `parseLightPacket`, which decodes them. A packet is a version byte,
a tag that is introduced and ended by a zero byte, and records of six bytes each.
-/

namespace Valoserveri

/-- One light command of a packet. -/
structure LightColor where
  index : UInt32
  color : Color
deriving Repr, DecidableEq

/-- A decoded packet. -/
structure LightPacket where
  tag : StdString := []
  lights : List LightColor := []
deriving Repr, DecidableEq

/-! ## The parser -/

/-- The search for the zero byte that ends the tag, with the loop counter at `i`. The counter is an
    `unsigned int`, so it has `2^32` values. -/
def findTagEnd (packet : StdString) : Nat → Nat → Except Halt (Option Nat)
  | 0, _ => .error .diverges
  | fuel + 1, i =>
    if i < packet.length then
      (spanAt packet i).bind fun c =>
        if c = 0 then .ok (some i) else findTagEnd packet fuel ((i + 1) % 2 ^ 32)
    else .ok none

/-- The tag of a packet and the offset of its first record. A tag that is not terminated is left
    empty, and the records are then taken from offset 3. -/
def parseTag (packet : StdString) : Except Halt (StdString × Int) :=
  (findTagEnd packet (2 ^ 32) 2).bind fun
    | some i => (stringRange packet 2 i).bind fun tag => .ok (tag, toInt ((i + 1 : Nat) : Int))
    | none => .ok ([], 3)

/-- `packet[offset + k]`. -/
def recordByte (packet : StdString) (offset k : Int) : Except Halt Int8 :=
  (addInt offset k).bind fun idx => spanAt packet (toSize idx)

/-- The command of a record of type 1. The extension byte at `offset + 2` is not read. -/
def parseRecord (packet : StdString) (offset : Int) : Except Halt LightColor := do
  let index ← recordByte packet offset 1
  let red ← recordByte packet offset 3
  let green ← recordByte packet offset 4
  let blue ← recordByte packet offset 5
  return { index := charToUInt index
           color := { red := red.toUInt8, green := green.toUInt8, blue := blue.toUInt8 } }

/-- The record loop, with `n` passes left and its counter at `i`. -/
def recordLoop (packet : StdString) (baseOffset : Int) : Nat → Nat → Except Halt (List LightColor)
  | 0, _ => .ok []
  | n + 1, i =>
    let offset := toInt (baseOffset + i * 6)
    (recordByte packet offset 0).bind fun type =>
      if type ≠ 1 then recordLoop packet baseOffset n (i + 1)
      else
        (parseRecord packet offset).bind fun l =>
          (recordLoop packet baseOffset n (i + 1)).bind fun ls => .ok (l :: ls)

/-- The number of passes of the record loop. -/
def maxCount (packet : StdString) (baseOffset : Int) : Nat :=
  toUInt ((toSize (packet.length - baseOffset) / 6 : Nat) : Int)

/-- The part of `parseLightPacket` behind the checks of the header. -/
def parseBody (packet : StdString) : Except Halt LightPacket :=
  (parseTag packet).bind fun (tag, baseOffset) =>
    (recordLoop packet baseOffset (maxCount packet baseOffset) 0).bind fun lights =>
      .ok { tag, lights }

/-- `parseLightPacket`. A packet that is too small, has a bad version or a bad tag gives an empty
    `LightPacket`. -/
def parseLightPacket (packet : StdString) : Except Halt LightPacket :=
  if packet.length < 3 then .ok {}
  else
    (spanAt packet 0).bind fun version =>
      if version ≠ 1 then .ok {}
      else
        (spanAt packet 1).bind fun marker =>
          if marker ≠ 0 then .ok {} else parseBody packet

/-! ## The clients -/

/-- A command as a client gives it. -/
structure LightCommand where
  index : UInt8
  color : Color
deriving Repr, DecidableEq

/-- The six bytes `Instanssi.set` appends to a packet. -/
def encodeCommand (c : LightCommand) : List UInt8 :=
  [1, c.index, 0, c.color.red, c.color.green, c.color.blue]

/-- The packet the clients send. -/
def encodePacket (tag : List UInt8) (commands : List LightCommand) : List UInt8 :=
  [1, 0] ++ tag ++ [0] ++ commands.flatMap encodeCommand

/-- The packet a client means to send. -/
def sentPacket (tag : List UInt8) (commands : List LightCommand) : LightPacket where
  tag := asChars tag
  lights := commands.map fun c => { index := c.index.toUInt32, color := c.color }

end Valoserveri
