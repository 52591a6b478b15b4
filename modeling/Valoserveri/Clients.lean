import Valoserveri.LightPacket

/-!
# The clients

The class `Instanssi` of `instanssiController.py` with the program below it, and the loop of
`websocket.html`. The first builds a new list for every packet, the second writes all packets to one
array.
-/

namespace Valoserveri

/-! ## `instanssiController.py` -/

/-- The arguments of `Instanssi.set`. -/
structure SetCall where
  i : Int
  r : Int
  g : Int
  b : Int
deriving Repr, DecidableEq

/-- `Instanssi`. The nick is given by its code points. -/
structure Instanssi where
  nick : List Nat
  packet : List Int
  /-- The datagrams that have been sent. -/
  sent : List (List UInt8) := []
deriving Repr, DecidableEq

/-- `reset`. -/
def Instanssi.reset (c : Instanssi) : Instanssi :=
  { c with packet := [1] ++ [0] ++ c.nick.map Int.ofNat ++ [0] }

/-- The constructor. -/
def Instanssi.construct (nick : List Nat) : Instanssi := Instanssi.reset { nick, packet := [] }

/-- `set`. -/
def Instanssi.set (c : Instanssi) (s : SetCall) : Instanssi :=
  { c with packet := c.packet ++ [1, s.i, 0, s.r, s.g, s.b] }

/-- `bytearray`, which throws a `ValueError` if there is an element that is no byte. -/
def bytearray (xs : List Int) : Option (List UInt8) :=
  if ∀ x ∈ xs, 0 ≤ x ∧ x < 256 then some (xs.map fun x => UInt8.ofNat x.toNat) else none

/-- `send`. The packet is reset only if neither `bytearray` nor `sendto` throws. -/
def Instanssi.send (c : Instanssi) (sendto : Bool) : Instanssi :=
  match bytearray c.packet with
  | some bytes => if sendto then Instanssi.reset { c with sent := c.sent ++ [bytes] } else c
  | none => c

/-- A call of one of the methods. `sendto` says whether the system takes the datagram. -/
inductive InstanssiCall where
  | set (s : SetCall)
  | send (sendto : Bool)
deriving Repr, DecidableEq

def Instanssi.call (c : Instanssi) : InstanssiCall → Instanssi
  | .set s => c.set s
  | .send sendto => c.send sendto

/-- The client after some calls, where the exceptions of `send` are caught. -/
def Instanssi.calls (c : Instanssi) (calls : List InstanssiCall) : Instanssi := calls.foldl Instanssi.call c

/-- The nick of the program. -/
def instanssiNick : List Nat := (lit "instanssilainen").map fun c => c.toUInt8.toNat

/-- One round of the endless loop of the program, up to its first or its second `send`. -/
def rotate (i : Nat) (second : Bool) : List InstanssiCall :=
  [.set ⟨i, 0, 255, 0⟩, .send true] ++ if second then [.set ⟨i, 0, 0, 255⟩, .send true] else []

/-- The calls of the program: all lights are set to blue, then `rounds` rounds of the loop are made, and
    the next one up to its first `send` if `green` is true. -/
def instanssiProgram (rounds : Nat) (green : Bool) : List InstanssiCall :=
  (List.range 36).map (fun i : Nat => .set ⟨i, 0, 0, 255⟩) ++ [.send true] ++
    (List.range rounds).flatMap (fun i => rotate (i % 36) true) ++
      if green then rotate (rounds % 36) false else []

/-! ## `websocket.html` -/

/-- The fields of the page: the tag by its code units, and the number of the lights, which is taken to be a
    natural number. The array of the page keeps what is stored in it modulo 256. -/
structure LightingPage where
  tagi : List Nat
  lightCount : Nat
deriving Repr, DecidableEq

/-- The numbers that `Math.random` gives in one pass of `lightingLoop`: the colours of the lights, the
    light that is set again, and its colour. -/
structure Tick where
  colors : Nat → Color
  v : Nat
  color : Color

namespace LightingPage

variable (page : LightingPage)

def headerLength : Nat := 3 + page.tagi.length

/-- The array that `onopen` makes. An element of a `Uint8Array` is assigned the value modulo 256. -/
def onopen : List UInt8 :=
  let data := List.replicate (page.headerLength + 6 * page.lightCount) 0
  let data := data.set 0 1
  let data := data.set 1 0
  let data := (List.range page.tagi.length).foldl
    (fun data i => data.set (i + 2) (UInt8.ofNat (page.tagi.getD i 0))) data
  data.set (2 + page.tagi.length) 0

/-- The assignments for light `i`. -/
def writeLight (data : List UInt8) (i : Nat) (color : Color) : List UInt8 :=
  let p := page.headerLength + 6 * i
  let data := data.set (p + 0) 1
  let data := data.set (p + 1) (UInt8.ofNat i)
  let data := data.set (p + 2) 0
  let data := data.set (p + 3) color.red
  let data := data.set (p + 4) color.green
  data.set (p + 5) color.blue

/-- The assignments for the light that is set again. Those behind the end of the array have no effect. -/
def rewriteLight (data : List UInt8) (v : Nat) (color : Color) : List UInt8 :=
  let p := page.headerLength + 6 * v
  let data := data.set (p + 1) (UInt8.ofNat v)
  let data := data.set (p + 3) color.red
  let data := data.set (p + 4) color.green
  data.set (p + 5) color.blue

/-- The array after one pass of `lightingLoop`. -/
def lightingLoop (data : List UInt8) (tick : Tick) : List UInt8 :=
  let data := (List.range page.lightCount).foldl (fun data i => page.writeLight data i (tick.colors i)) data
  page.rewriteLight data tick.v tick.color

/-- One pass of `lightingLoop`: the array, and what has been sent. -/
def pass (st : List UInt8 × List (List UInt8)) (tick : Tick) : List UInt8 × List (List UInt8) :=
  let data := page.lightingLoop st.1 tick
  (data, st.2 ++ [data])

/-- The messages that are sent in the given passes. -/
def messages (ticks : List Tick) : List (List UInt8) := (ticks.foldl page.pass (page.onopen, [])).2

end LightingPage

/-! ## What they mean to send -/

/-- A call with bytes for arguments. -/
def SetCall.Valid (s : SetCall) : Prop := ∀ x ∈ [s.i, s.r, s.g, s.b], 0 ≤ x ∧ x < 256

instance (s : SetCall) : Decidable s.Valid := List.decidableBAll _ _

/-- The command of a call. -/
def SetCall.command (s : SetCall) : LightCommand where
  index := UInt8.ofNat s.i.toNat
  color := { red := UInt8.ofNat s.r.toNat, green := UInt8.ofNat s.g.toNat, blue := UInt8.ofNat s.b.toNat }

/-- The arguments of a call of `set`. -/
def InstanssiCall.set? : InstanssiCall → Option SetCall
  | .set s => some s
  | .send _ => none

/-- The calls of `set` that are sent together, and those that are left, if the given ones wait. -/
def batches : List SetCall → List InstanssiCall → List (List SetCall) × List SetCall
  | waiting, [] => ([], waiting)
  | waiting, .set s :: calls => batches (waiting ++ [s]) calls
  | waiting, .send sendto :: calls =>
    if sendto = true ∧ ∀ s ∈ waiting, s.Valid then
      (waiting :: (batches [] calls).1, (batches [] calls).2)
    else batches waiting calls

/-- A packet that the server decodes as it is meant: the tag has no zero byte, the indices are those that a
    `char` can have, and the offsets are those that an `int` can have. -/
structure ClientPacket where
  tag : List UInt8
  commands : List LightCommand
  tag_ne_zero : ∀ b ∈ tag, b ≠ 0
  index_lt : ∀ c ∈ commands, c.index < 128
  length_lt : (encodePacket tag commands).length < 2 ^ 31

/-- The bytes of a packet, as the server reads them. -/
def ClientPacket.chars (p : ClientPacket) : StdString := asChars (encodePacket p.tag p.commands)

/-- The colours that a packet assigns to lights. -/
def ClientPacket.assignments (p : ClientPacket) : List (UInt32 × Color) :=
  p.commands.map fun c => (c.index.toUInt32, c.color)

/-- The commands of one pass of `lightingLoop`. -/
def Tick.commands (tick : Tick) (lightCount : Nat) : List LightCommand :=
  (List.range lightCount).map fun i =>
    { index := UInt8.ofNat i, color := if i = tick.v then tick.color else tick.colors i }

end Valoserveri
