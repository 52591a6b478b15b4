import Valoserveri.Proofs.LightPacketProofs

/-!
# What the server decodes of what a client sends

A packet built by a client comes back from `parseLightPacket` exactly if every index is below 128:
`packet[offset + 1]` is a signed `char`, and an index from 128 on is sign-extended to `unsigned int`.
The packet must also be small enough for the `int` offsets of the parser.
-/

namespace Valoserveri

/-- The command the server takes out of the record of `c`. -/
def decodedCommand (c : LightCommand) : LightColor :=
  { index := charToUInt c.index.toInt8, color := c.color }

/-- The sign extension of a byte keeps its value exactly below 128. -/
theorem charToUInt_toInt8 (b : UInt8) : charToUInt b.toInt8 = b.toUInt32 ↔ b < 128 := by
  have h : ∀ n : Fin 256,
      charToUInt (UInt8.ofNat n).toInt8 = (UInt8.ofNat n).toUInt32 ↔ UInt8.ofNat n < 128 := by
    decide +kernel
  have hb := h ⟨b.toNat, b.toNat_lt⟩
  simpa using hb

theorem asChars_ne_zero {bytes : List UInt8} (h : ∀ b ∈ bytes, b ≠ 0) :
    ∀ c ∈ asChars bytes, c ≠ 0 := by
  intro c hc
  obtain ⟨b, hb, rfl⟩ := List.mem_map.mp hc
  intro hzero
  exact h b hb (congrArg Int8.toUInt8 hzero)

/-! ## The records of a client -/

/-- The body of a client's packet, as the server reads it. -/
def commandBody (commands : List LightCommand) : StdString :=
  asChars (commands.flatMap encodeCommand)

theorem asChars_encodePacket (tag : List UInt8) (commands : List LightCommand) :
    asChars (encodePacket tag commands) = taggedPacket (asChars tag) (commandBody commands) := by
  simp [encodePacket, taggedPacket, commandBody, asChars]

theorem commandBody_cons (c : LightCommand) (commands : List LightCommand) :
    commandBody (c :: commands) =
      1 :: c.index.toInt8 :: 0 :: c.color.red.toInt8 :: c.color.green.toInt8 ::
        c.color.blue.toInt8 :: commandBody commands := rfl

theorem commandBody_length (commands : List LightCommand) :
    (commandBody commands).length = 6 * commands.length := by
  induction commands with
  | nil => rfl
  | cons c commands ih =>
    rw [commandBody_cons]
    simp only [List.length_cons, ih]
    omega

theorem encodePacket_length (tag : List UInt8) (commands : List LightCommand) :
    (encodePacket tag commands).length = tag.length + 3 + 6 * commands.length := by
  have h := congrArg List.length (asChars_encodePacket tag commands)
  rw [taggedPacket_length, commandBody_length] at h
  simpa [asChars] using h

theorem commandBody_type (commands : List LightCommand) {j : Nat} (hj : j < commands.length) :
    (commandBody commands)[6 * j]? = some 1 := by
  induction commands generalizing j with
  | nil => simp at hj
  | cons c commands ih =>
    rw [commandBody_cons]
    cases j with
    | zero => rfl
    | succ j => exact ih (by simpa using hj)

theorem decodeRecords_commandBody (commands : List LightCommand) :
    decodeRecords (commandBody commands) = commands.map decodedCommand := by
  induction commands with
  | nil => rfl
  | cons c commands ih =>
    rw [commandBody_cons, decodeRecords, if_pos rfl, ih]
    simp [decodedCommand]

theorem map_decodedCommand_eq_iff (tag : List UInt8) (commands : List LightCommand) :
    commands.map decodedCommand = (sentPacket tag commands).lights ↔
      ∀ c ∈ commands, c.index < 128 := by
  unfold sentPacket
  rw [List.map_inj_left]
  refine forall₂_congr fun c _ => ?_
  rw [← charToUInt_toInt8]
  simp [decodedCommand]

/-! ## The size of the packet -/

/-- An offset that has become negative makes the first pass of the record loop read outside the
    packet. -/
theorem recordLoop_negative {packet : StdString} {base : Int} {n : Nat} {ls : List LightColor}
    (hneg : base < 0) (hbase : -2 ^ 31 ≤ base) (hlen : packet.length < 2 ^ 63) :
    recordLoop packet base (n + 1) 0 ≠ .ok ls := by
  intro h
  rw [recordLoop] at h
  obtain ⟨type, htype, -⟩ := ExceptRun.except_bind_eq_ok.mp h
  rw [toInt_of_lt (by omega) (by omega)] at htype
  have hget := (List.getElem?_eq_some_iff.mp (recordByte_eq_ok htype).2).1
  unfold toSize at hget
  omega

section Size

variable {tag : StdString} {commands : List LightCommand} {ls : List LightColor}

theorem clientPacket_length : (taggedPacket tag (commandBody commands)).length =
    tag.length + 3 + 6 * commands.length := by
  rw [taggedPacket_length, commandBody_length]

/-- With the right offset, a record loop that succeeds has read every record of the packet. -/
theorem clientPacket_size_of_recordLoop (hbase : tag.length + 3 < 2 ^ 31)
    (hcommands : commands.length < 2 ^ 32)
    (h : recordLoop (taggedPacket tag (commandBody commands)) ((tag.length + 3 : Nat) : Int)
      (maxCount (taggedPacket tag (commandBody commands)) ((tag.length + 3 : Nat) : Int)) 0 = .ok ls) :
    tag.length + 3 + 6 * commands.length ≤ 2 ^ 31 := by
  have hcount : maxCount (taggedPacket tag (commandBody commands)) ((tag.length + 3 : Nat) : Int) =
      commands.length := by
    rw [maxCount_eq (6 * commands.length) (by omega) (by rw [clientPacket_length]; omega)]
    omega
  have htypes : ∀ j, 0 ≤ j → j < 0 + commands.length →
      (taggedPacket tag (commandBody commands))[tag.length + 3 + 6 * j]? = some 1 := by
    intro j _ hj
    have hget : ((taggedPacket tag (commandBody commands)).drop (tag.length + 3))[6 * j]? = some 1 := by
      rw [taggedPacket_drop]
      exact commandBody_type commands (by omega)
    rwa [List.getElem?_drop] at hget
  rw [hcount] at h
  have hlast := recordLoop_record_le (by omega) (by rw [clientPacket_length]; omega) htypes h
  omega

/-- A tag that pushes the offset out of the range of `int` leaves no way to decode all commands. -/
theorem clientPacket_offset_lt (htag : tag.length + 2 < 2 ^ 32) (hcommands : commands.length < 2 ^ 32)
    (hls : ls.length = commands.length)
    (h : recordLoop (taggedPacket tag (commandBody commands)) (toInt ((tag.length + 3 : Nat) : Int))
      (maxCount (taggedPacket tag (commandBody commands)) (toInt ((tag.length + 3 : Nat) : Int))) 0 =
        .ok ls) :
    tag.length + 3 < 2 ^ 31 := by
  by_contra hge
  have hle := recordLoop_length_le h
  rcases Nat.lt_or_ge (tag.length + 3) (2 ^ 32) with hlt | hge'
  · -- the offset has become negative
    rw [toInt_of_ge (by omega) (by omega)] at h hle
    obtain ⟨m, hm⟩ : ∃ m, maxCount (taggedPacket tag (commandBody commands))
        (((tag.length + 3 : Nat) : Int) - 2 ^ 32) = m + 1 := by
      refine Nat.exists_eq_succ_of_ne_zero fun hzero => ?_
      rw [maxCount_eq (6 * commands.length + 2 ^ 32) (by omega)
        (by rw [clientPacket_length]; omega)] at hzero hle
      omega
    rw [hm] at h
    exact recordLoop_negative (by omega) (by omega) (by rw [clientPacket_length]; omega) h
  · -- the offset has become zero, and the records are read out of the header and the tag
    have hzero : toInt ((tag.length + 3 : Nat) : Int) = ((0 : Nat) : Int) := by
      have : tag.length + 3 = 2 ^ 32 := by omega
      rw [this]
      rfl
    rw [hzero] at h hle
    have hbound := recordLoop_type_lt (i := 0) (by rw [clientPacket_length]; omega) (by omega) h
    rw [maxCount_eq (6 * commands.length + 2 ^ 32) (by omega)
      (by rw [clientPacket_length]; omega)] at hbound hle
    omega

/-- A client's packet whose decoding has as many lights as it has commands is small enough for the
    offsets of the parser. -/
theorem clientPacket_size_of_decoded {r : LightPacket} (htag : ∀ c ∈ tag, c ≠ 0)
    (h : parseLightPacket (taggedPacket tag (commandBody commands)) = .ok r)
    (hlights : r.lights.length = commands.length) :
    tag.length + 3 < 2 ^ 31 ∧ tag.length + 3 + 6 * commands.length ≤ 2 ^ 31 := by
  rw [parseLightPacket_taggedPacket, parseBody_eq_ok] at h
  obtain ⟨base, hbase, hloop⟩ := h
  have hcommands : commands.length < 2 ^ 32 := by
    have hle := recordLoop_length_le hloop
    unfold maxCount toUInt at hle
    omega
  rcases Nat.lt_or_ge (tag.length + 2) (2 ^ 32) with htl | htl
  · rw [parseTag_taggedPacket htag htl] at hbase
    obtain rfl : toInt ((tag.length + 3 : Nat) : Int) = base :=
      (Prod.mk.inj (Except.ok.inj hbase)).2
    have hlt := clientPacket_offset_lt htl hcommands hlights hloop
    rw [toInt_of_lt (by omega) (by omega)] at hloop
    exact ⟨hlt, clientPacket_size_of_recordLoop hlt hcommands hloop⟩
  · rw [parseTag_taggedPacket_of_ge htag htl] at hbase
    cases hbase

end Size

/-! ## The round trip -/

/-- A client's packet is decoded to what was sent exactly if every index is below 128 and the packet
    is small enough. -/
theorem parseLightPacket_encodePacket_iff (tag : List UInt8) (commands : List LightCommand)
    (htag : ∀ b ∈ tag, b ≠ 0) :
    parseLightPacket (asChars (encodePacket tag commands)) = .ok (sentPacket tag commands) ↔
      (∀ c ∈ commands, c.index < 128) ∧ tag.length + 3 < 2 ^ 31 ∧
        (encodePacket tag commands).length ≤ 2 ^ 31 := by
  have hchars := asChars_ne_zero htag
  have hlen : (asChars tag).length = tag.length := by simp [asChars]
  rw [asChars_encodePacket, encodePacket_length]
  constructor
  · intro h
    obtain ⟨hbase, hsize⟩ := clientPacket_size_of_decoded hchars h (by simp [sentPacket])
    rw [hlen] at hbase hsize
    refine ⟨?_, hbase, hsize⟩
    rw [parseLightPacket_terminated hchars (by omega) (by rw [commandBody_length]; omega),
      decodeRecords_commandBody] at h
    exact (map_decodedCommand_eq_iff tag commands).mp (congrArg LightPacket.lights (Except.ok.inj h))
  · rintro ⟨hindex, hbase, hsize⟩
    rw [parseLightPacket_terminated hchars (by omega) (by rw [commandBody_length]; omega),
      decodeRecords_commandBody, (map_decodedCommand_eq_iff tag commands).mpr hindex]
    rfl

/-- A packet for the lights 0 and 127 comes back. -/
theorem parseLightPacket_encodePacket_epeli :
    parseLightPacket (asChars (encodePacket [101, 112, 101, 108, 105]
        [⟨0, { red := 255 }⟩, ⟨127, { blue := 200 }⟩])) =
      .ok (sentPacket [101, 112, 101, 108, 105] [⟨0, { red := 255 }⟩, ⟨127, { blue := 200 }⟩]) :=
  (parseLightPacket_encodePacket_iff [101, 112, 101, 108, 105]
    [⟨0, { red := 255 }⟩, ⟨127, { blue := 200 }⟩] (by simp)).mpr (by decide)

/-- Light 128 is decoded with the index `4294967168`. -/
theorem parseLightPacket_encodePacket_index_128 :
    ¬ ∀ (tag : List UInt8) (commands : List LightCommand), (∀ b ∈ tag, b ≠ 0) →
      parseLightPacket (asChars (encodePacket tag commands)) = .ok (sentPacket tag commands) := by
  intro h
  have := h [101] [⟨128, { red := 255 }⟩] (by simp)
  revert this
  decide

end Valoserveri
