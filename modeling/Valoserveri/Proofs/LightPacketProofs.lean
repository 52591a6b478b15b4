import Valoserveri.PacketFormat
import Valoserveri.Library.ExceptRun
import Mathlib.Tactic.Ring
import Mathlib.Tactic.NormNum

/-!
# `parseLightPacket` decodes the packet format

The tag scan finds the first zero byte and the record loop reads the records behind it, as long as
the packet is small enough for the `int` offsets the parser works with.
-/

namespace Valoserveri

open ExceptRun

theorem spanAt_eq_ok {packet : StdString} {idx : Nat} {c : Int8} :
    spanAt packet idx = .ok c ↔ packet[idx]? = some c := by
  unfold spanAt
  cases packet[idx]? <;> simp

/-! ## The tag scan -/

/-- The scan moves past bytes that are not zero. The counter wraps around at `2^32`. -/
theorem findTagEnd_advance (packet : StdString) (fuel n i : Nat) (hn : i + n ≤ 2 ^ 32)
    (hi : i < 2 ^ 32) (hne : ∀ j, i ≤ j → j < i + n → ∃ c, packet[j]? = some c ∧ c ≠ 0) :
    findTagEnd packet (fuel + n) i = findTagEnd packet fuel ((i + n) % 2 ^ 32) := by
  induction n generalizing i with
  | zero => rw [Nat.add_zero, Nat.add_zero, Nat.mod_eq_of_lt hi]
  | succ n ih =>
    obtain ⟨c, hc, hc0⟩ := hne i (Nat.le_refl _) (by omega)
    have hlt : i < packet.length := (List.getElem?_eq_some_iff.mp hc).1
    have hstep : findTagEnd packet (fuel + (n + 1)) i =
        findTagEnd packet (fuel + n) ((i + 1) % 2 ^ 32) := by
      rw [← Nat.add_assoc, findTagEnd, if_pos hlt, spanAt_eq_ok.mpr hc]
      rw [ok_bind]
      rw [if_neg hc0]
    rw [hstep]
    by_cases hwrap : i + 1 < 2 ^ 32
    · rw [Nat.mod_eq_of_lt hwrap, ih (i + 1) (by omega) hwrap (fun j h1 h2 => hne j (by omega) (by omega))]
      congr 2
      omega
    · -- the counter wraps, so this was the last pass
      have hn0 : n = 0 := by omega
      subst hn0
      rfl

theorem findTagEnd_found {packet : StdString} {fuel i t : Nat} (hit : i ≤ t) (ht : t < 2 ^ 32)
    (hfuel : t - i < fuel) (hz : packet[t]? = some 0)
    (hne : ∀ j, i ≤ j → j < t → ∃ c, packet[j]? = some c ∧ c ≠ 0) :
    findTagEnd packet fuel i = .ok (some t) := by
  obtain ⟨f, rfl⟩ : ∃ f, fuel = (f + 1) + (t - i) := ⟨fuel - (t - i) - 1, by omega⟩
  rw [findTagEnd_advance packet (f + 1) (t - i) i (by omega) (by omega)
    (fun j h1 h2 => hne j h1 (by omega))]
  rw [Nat.add_sub_cancel' hit, Nat.mod_eq_of_lt ht, findTagEnd,
    if_pos (List.getElem?_eq_some_iff.mp hz).1, spanAt_eq_ok.mpr hz]
  rfl

/-- A scan whose counter wraps around finds the tag marker at index 1. -/
theorem findTagEnd_wrapped {packet : StdString} (hlen : 2 ^ 32 ≤ packet.length)
    (hne : ∀ j, 2 ≤ j → j < 2 ^ 32 → packet[j]? ≠ some 0) (h0 : packet[0]? = some 1)
    (h1 : packet[1]? = some 0) : findTagEnd packet (2 ^ 32) 2 = .ok (some 1) := by
  have hfuel : 2 ^ 32 = 2 + (2 ^ 32 - 2) := by norm_num
  rw [hfuel, findTagEnd_advance packet 2 (2 ^ 32 - 2) 2 (by norm_num) (by norm_num)]
  · show findTagEnd packet 2 0 = _
    rw [findTagEnd, if_pos (by omega), spanAt_eq_ok.mpr h0]
    rw [ok_bind]
    rw [if_neg (by decide)]
    show findTagEnd packet 1 1 = _
    rw [findTagEnd, if_pos (by omega), spanAt_eq_ok.mpr h1]
    rfl
  · intro j h2 hj
    have hlt : j < packet.length := by omega
    exact ⟨packet[j], List.getElem?_eq_getElem hlt, fun h =>
      hne j h2 (by omega) (by rw [List.getElem?_eq_getElem hlt, h])⟩

/-! ## The record loop -/

theorem toInt_of_lt {x : Int} (h0 : -2 ^ 31 ≤ x) (h : x < 2 ^ 31) : toInt x = x := by
  unfold toInt
  rw [Int.bmod_eq_of_le] <;> omega

theorem toInt_of_ge {x : Int} (h0 : 2 ^ 31 ≤ x) (h : x < 2 ^ 32) : toInt x = x - 2 ^ 32 := by
  unfold toInt
  rw [Int.bmod_def]
  norm_num at *
  omega

theorem maxCount_eq {packet : StdString} {base : Int} (x : Nat) (hx : x < 2 ^ 64)
    (h : (packet.length : Int) - base = x) : maxCount packet base = x / 6 % 2 ^ 32 := by
  unfold maxCount toUInt toSize
  rw [h]
  omega

/-- A byte of a record is read if its offset is a nonnegative `int` inside the packet. -/
theorem recordByte_of_getElem? {packet : StdString} {o k : Nat} {c : Int8} (hlt : o + k < 2 ^ 31)
    (hc : packet[o + k]? = some c) : recordByte packet o k = .ok c := by
  have hsize : toSize ((o : Int) + k) = o + k := by unfold toSize; omega
  unfold recordByte addInt
  rw [if_pos (by omega)]
  rw [ok_bind]
  rw [hsize]
  exact spanAt_eq_ok.mpr hc

theorem recordByte_eq_ok {packet : StdString} {offset k : Int} {c : Int8}
    (h : recordByte packet offset k = .ok c) :
    offset + k < 2 ^ 31 ∧ packet[toSize (offset + k)]? = some c := by
  unfold recordByte addInt at h
  split_ifs at h with hr
  · exact ⟨hr.2, spanAt_eq_ok.mp h⟩
  · cases h

/-- A record of type 1 is decoded from its bytes 1, 3, 4 and 5. -/
theorem parseRecord_of_drop {packet : StdString} {o : Nat} {type index extension red green blue : Int8}
    {rest : StdString} (hlt : o + 6 ≤ 2 ^ 31)
    (hd : packet.drop o = type :: index :: extension :: red :: green :: blue :: rest) :
    parseRecord packet o = .ok
      { index := charToUInt index
        color := { red := red.toUInt8, green := green.toUInt8, blue := blue.toUInt8 } } := by
  have hget : ∀ k c, (packet.drop o)[k]? = some c → packet[o + k]? = some c := by
    intro k c h
    rwa [List.getElem?_drop] at h
  rw [hd] at hget
  have h1 : recordByte packet o 1 = .ok index :=
    recordByte_of_getElem? (k := 1) (by omega) (hget 1 index rfl)
  have h3 : recordByte packet o 3 = .ok red :=
    recordByte_of_getElem? (k := 3) (by omega) (hget 3 red rfl)
  have h4 : recordByte packet o 4 = .ok green :=
    recordByte_of_getElem? (k := 4) (by omega) (hget 4 green rfl)
  have h5 : recordByte packet o 5 = .ok blue :=
    recordByte_of_getElem? (k := 5) (by omega) (hget 5 blue rfl)
  unfold parseRecord
  rw [h1, h3, h4, h5]
  rfl

theorem parseRecord_blue_lt {packet : StdString} {offset : Int} {l : LightColor}
    (h : parseRecord packet offset = .ok l) : offset + 5 < 2 ^ 31 := by
  unfold parseRecord at h
  obtain ⟨index, -, h⟩ := bind_eq_ok.mp h
  obtain ⟨red, -, h⟩ := bind_eq_ok.mp h
  obtain ⟨green, -, h⟩ := bind_eq_ok.mp h
  obtain ⟨blue, hblue, -⟩ := bind_eq_ok.mp h
  exact (recordByte_eq_ok hblue).1

theorem exists_record (body : StdString) (h : 6 ≤ body.length) :
    ∃ type index extension red green blue rest,
      body = type :: index :: extension :: red :: green :: blue :: rest := by
  rcases body with _ | ⟨a, _ | ⟨b, _ | ⟨c, _ | ⟨d, _ | ⟨e, _ | ⟨f, rest⟩⟩⟩⟩⟩⟩
  case cons.cons.cons.cons.cons.cons => exact ⟨a, b, c, d, e, f, rest, rfl⟩
  all_goals simp at h

/-- The record loop decodes the records behind its offset. -/
theorem recordLoop_eq (packet : StdString) (base n i : Nat) (hint : base + 6 * (i + n) ≤ 2 ^ 31)
    (hlen : base + 6 * (i + n) ≤ packet.length) :
    recordLoop packet base n i =
      .ok (decodeRecords ((packet.drop (base + 6 * i)).take (6 * n))) := by
  induction n generalizing i with
  | zero => simp [recordLoop, decodeRecords]
  | succ n ih =>
    have hoff : toInt ((base : Int) + (i : Nat) * 6) = ((base + 6 * i : Nat) : Int) := by
      rw [toInt_of_lt (by omega) (by omega)]
      push_cast
      ring
    have hdlen : 6 ≤ (packet.drop (base + 6 * i)).length := by rw [List.length_drop]; omega
    obtain ⟨type, index, extension, red, green, blue, rest, hd⟩ := exists_record _ hdlen
    have hrest : packet.drop (base + 6 * (i + 1)) = rest := by
      have : base + 6 * (i + 1) = base + 6 * i + 6 := by ring
      rw [this, ← List.drop_drop, hd]
      rfl
    have htype : recordByte packet ((base + 6 * i : Nat) : Int) 0 = .ok type := by
      refine recordByte_of_getElem? (k := 0) (by omega) ?_
      have : (packet.drop (base + 6 * i))[0]? = some type := by rw [hd]; rfl
      rwa [List.getElem?_drop] at this
    have hrec := ih (i + 1) (by omega) (by omega)
    rw [hrest] at hrec
    have htake : (packet.drop (base + 6 * i)).take (6 * (n + 1)) =
        type :: index :: extension :: red :: green :: blue :: rest.take (6 * n) := by
      rw [hd, Nat.mul_add]
      rfl
    rw [recordLoop, hoff, htype, htake, decodeRecords]
    rw [ok_bind]
    by_cases ht : type = 1
    · rw [if_neg (by simpa using ht), if_pos ht, parseRecord_of_drop (by omega) hd, hrec,
        ok_bind, ok_bind]
    · rw [if_pos ht, if_neg ht, hrec]

theorem recordLoop_length_le {packet : StdString} {base : Int} {n i : Nat} {ls : List LightColor}
    (h : recordLoop packet base n i = .ok ls) : ls.length ≤ n := by
  induction n generalizing i ls with
  | zero =>
    obtain rfl : [] = ls := by simpa [recordLoop] using h
    exact Nat.le_refl _
  | succ n ih =>
    rw [recordLoop] at h
    obtain ⟨type, -, h⟩ := except_bind_eq_ok.mp h
    split_ifs at h with ht
    · exact Nat.le_succ_of_le (ih h)
    · obtain ⟨l, -, h⟩ := except_bind_eq_ok.mp h
      obtain ⟨rest, hrest, h⟩ := except_bind_eq_ok.mp h
      obtain rfl : l :: rest = ls := by simpa using h
      simpa using ih hrest

/-- A record loop that succeeds has read the type byte of every record at an `int` offset. -/
theorem recordLoop_type_lt {packet : StdString} {base n i : Nat} {ls : List LightColor}
    (hlen : packet.length < 2 ^ 63) (hi : base + 6 * i < 2 ^ 31 + 6)
    (h : recordLoop packet base n i = .ok ls) : base + 6 * (i + n) < 2 ^ 31 + 6 := by
  induction n generalizing i ls with
  | zero => simpa using hi
  | succ n ih =>
    rw [recordLoop] at h
    obtain ⟨type, htype, h⟩ := except_bind_eq_ok.mp h
    have hoff : base + 6 * i < 2 ^ 31 := by
      by_contra hge
      rw [toInt_of_ge (by omega) (by omega)] at htype
      have hget := (List.getElem?_eq_some_iff.mp (recordByte_eq_ok htype).2).1
      unfold toSize at hget
      omega
    have hnext : ∃ ls', recordLoop packet base n (i + 1) = .ok ls' := by
      split_ifs at h with ht
      · exact ⟨ls, h⟩
      · obtain ⟨l, -, h⟩ := except_bind_eq_ok.mp h
        obtain ⟨rest, hrest, -⟩ := except_bind_eq_ok.mp h
        exact ⟨rest, hrest⟩
    obtain ⟨ls', hls'⟩ := hnext
    have := ih (by omega) hls'
    omega

/-- A record loop over records of type 1 that succeeds has read the last byte of every record at an
    `int` offset. -/
theorem recordLoop_record_le {packet : StdString} {base n i : Nat} {ls : List LightColor}
    (hi : base + 6 * i ≤ 2 ^ 31) (hlen : packet.length < 2 ^ 63)
    (hone : ∀ j, i ≤ j → j < i + n → packet[base + 6 * j]? = some 1)
    (h : recordLoop packet base n i = .ok ls) : base + 6 * (i + n) ≤ 2 ^ 31 := by
  induction n generalizing i ls with
  | zero => simpa using hi
  | succ n ih =>
    have hbound := recordLoop_type_lt (n := n + 1) hlen (by omega) h
    rw [recordLoop] at h
    obtain ⟨type, htype, h⟩ := except_bind_eq_ok.mp h
    rw [toInt_of_lt (by omega) (by omega)] at htype h
    have hone' : type = 1 := by
      have hget := (recordByte_eq_ok htype).2
      have hsize : toSize ((base : Int) + (i : Nat) * 6 + 0) = base + 6 * i := by
        unfold toSize; omega
      rw [hsize, hone i (Nat.le_refl _) (by omega)] at hget
      exact (Option.some.inj hget).symm
    rw [if_neg (by simpa using hone')] at h
    obtain ⟨l, hl, h⟩ := except_bind_eq_ok.mp h
    obtain ⟨rest, hrest, -⟩ := except_bind_eq_ok.mp h
    have hlast := parseRecord_blue_lt hl
    have := ih (by omega) (fun j h1 h2 => hone j (by omega) (by omega)) hrest
    omega

/-! ## Packets with a terminated tag -/

section TaggedPacket

variable {tag body : StdString}

theorem taggedPacket_length : (taggedPacket tag body).length = tag.length + 3 + body.length := by
  simp [taggedPacket]
  omega

theorem taggedPacket_drop : (taggedPacket tag body).drop (tag.length + 3) = body := by
  show (tag ++ 0 :: body).drop (tag.length + 1) = body
  rw [List.drop_append]
  simp

theorem taggedPacket_getElem?_tag {j : Nat} (h2 : 2 ≤ j) (hj : j < tag.length + 2) :
    (taggedPacket tag body)[j]? = tag[j - 2]? := by
  obtain ⟨k, rfl⟩ : ∃ k, j = k + 2 := ⟨j - 2, by omega⟩
  show (tag ++ 0 :: body)[k]? = tag[k]?
  exact List.getElem?_append_left (by omega)

theorem taggedPacket_getElem?_end : (taggedPacket tag body)[tag.length + 2]? = some 0 := by
  show (tag ++ 0 :: body)[tag.length]? = some 0
  rw [List.getElem?_append_right (Nat.le_refl _), Nat.sub_self]
  rfl

theorem taggedPacket_tag_ne (body : StdString) (htag : ∀ c ∈ tag, c ≠ 0) {j : Nat} (h2 : 2 ≤ j)
    (hj : j < tag.length + 2) : ∃ c, (taggedPacket tag body)[j]? = some c ∧ c ≠ 0 := by
  have hlt : j - 2 < tag.length := by omega
  refine ⟨tag[j - 2], ?_, htag _ (List.getElem_mem hlt)⟩
  rw [taggedPacket_getElem?_tag h2 hj, List.getElem?_eq_getElem hlt]

/-- The tag of a terminated packet is found, and the records start behind its end. -/
theorem parseTag_taggedPacket (htag : ∀ c ∈ tag, c ≠ 0) (hlt : tag.length + 2 < 2 ^ 32) :
    parseTag (taggedPacket tag body) = .ok (tag, toInt ((tag.length + 3 : Nat) : Int)) := by
  have hfind : findTagEnd (taggedPacket tag body) (2 ^ 32) 2 = .ok (some (tag.length + 2)) :=
    findTagEnd_found (by omega) hlt (by omega) taggedPacket_getElem?_end
      (fun j h1 h2 => taggedPacket_tag_ne body htag h1 h2)
  have hrange : stringRange (taggedPacket tag body) 2 (tag.length + 2) = .ok tag := by
    unfold stringRange
    rw [if_neg (by omega)]
    simp [taggedPacket]
  unfold parseTag
  rw [hfind, ok_bind]
  show (stringRange (taggedPacket tag body) 2 (tag.length + 2)).bind _ = _
  rw [hrange, ok_bind]

/-- The tag of a packet whose tag does not end within the range of the loop counter is taken to end
    before it starts. -/
theorem parseTag_taggedPacket_of_ge (htag : ∀ c ∈ tag, c ≠ 0) (hge : 2 ^ 32 ≤ tag.length + 2) :
    parseTag (taggedPacket tag body) = .error .lengthError := by
  have hfind : findTagEnd (taggedPacket tag body) (2 ^ 32) 2 = .ok (some 1) := by
    refine findTagEnd_wrapped (by rw [taggedPacket_length]; omega) (fun j h2 hj => ?_) rfl rfl
    obtain ⟨c, hc, hne⟩ := taggedPacket_tag_ne body htag h2 (by omega)
    rw [hc]
    simpa using hne
  unfold parseTag
  rw [hfind, ok_bind]
  rfl

theorem parseLightPacket_taggedPacket :
    parseLightPacket (taggedPacket tag body) = parseBody (taggedPacket tag body) := by
  unfold parseLightPacket
  rw [if_neg (by rw [taggedPacket_length]; omega)]
  rfl

/-- Behind the header, a packet is decoded by finding the tag and running the record loop. -/
theorem parseBody_eq_ok {packet : StdString} {r : LightPacket} :
    parseBody packet = .ok r ↔ ∃ base, parseTag packet = .ok (r.tag, base) ∧
      recordLoop packet base (maxCount packet base) 0 = .ok r.lights := by
  unfold parseBody
  rw [except_bind_eq_ok]
  constructor
  · rintro ⟨⟨tag, base⟩, htag, h⟩
    obtain ⟨lights, hlights, h⟩ := except_bind_eq_ok.mp h
    obtain rfl : { tag, lights } = r := by simpa using h
    exact ⟨base, htag, hlights⟩
  · rintro ⟨base, htag, hlights⟩
    exact ⟨(r.tag, base), htag, except_bind_eq_ok.mpr ⟨r.lights, hlights, rfl⟩⟩

theorem take_records_cons (a b c d e f : Int8) (rest : StdString) :
    (a :: b :: c :: d :: e :: f :: rest).take (6 * ((a :: b :: c :: d :: e :: f :: rest).length / 6)) =
      a :: b :: c :: d :: e :: f :: rest.take (6 * (rest.length / 6)) := by
  have hlen : 6 * ((a :: b :: c :: d :: e :: f :: rest).length / 6) = 6 * (rest.length / 6) + 6 := by
    simp only [List.length_cons]
    omega
  rw [hlen]
  rfl

/-- An incomplete last record does not matter. -/
theorem decodeRecords_take (body : StdString) :
    decodeRecords (body.take (6 * (body.length / 6))) = decodeRecords body := by
  induction body using decodeRecords.induct with
  | case1 index extension red green blue rest ih =>
    rw [take_records_cons]
    simp [decodeRecords, ih]
  | case2 type index extension red green blue rest ht ih =>
    rw [take_records_cons]
    simp [decodeRecords, ht, ih]
  | case3 body h =>
    have hlen : body.length < 6 := by
      by_contra hge
      obtain ⟨a, b, c, d, e, f, rest, rfl⟩ := exists_record body (by omega)
      exact h _ _ _ _ _ _ _ rfl
    have hzero : 6 * (body.length / 6) = 0 := by omega
    rw [hzero, List.take_zero]
    rw [decodeRecords.eq_2 _ h]
    rfl

/-- A packet with a terminated tag that is small enough is decoded as the format says. -/
theorem parseLightPacket_terminated (htag : ∀ c ∈ tag, c ≠ 0) (hbase : tag.length + 3 < 2 ^ 31)
    (hlen : tag.length + 3 + body.length ≤ 2 ^ 31) :
    parseLightPacket (taggedPacket tag body) = .ok { tag, lights := decodeRecords body } := by
  have hcount : maxCount (taggedPacket tag body) ((tag.length + 3 : Nat) : Int) = body.length / 6 := by
    rw [maxCount_eq body.length (by omega) (by rw [taggedPacket_length]; omega)]
    exact Nat.mod_eq_of_lt (by omega)
  have hloop := recordLoop_eq (taggedPacket tag body) (tag.length + 3) (body.length / 6) 0
    (by omega) (by rw [taggedPacket_length]; omega)
  rw [Nat.mul_zero, Nat.add_zero, taggedPacket_drop, decodeRecords_take] at hloop
  have htoInt : toInt ((tag.length + 3 : Nat) : Int) = ((tag.length + 3 : Nat) : Int) :=
    toInt_of_lt (by omega) (by omega)
  rw [parseLightPacket_taggedPacket, parseBody_eq_ok]
  refine ⟨_, parseTag_taggedPacket htag (by omega), ?_⟩
  rw [htoInt, hcount, hloop]

end TaggedPacket

/-! ## All packets -/

theorem findTagEnd_eq_some {packet : StdString} {fuel i t : Nat}
    (h : findTagEnd packet fuel i = .ok (some t))
    (hi : ∀ j, 2 ≤ j → j < i → packet[j]? ≠ some 0) :
    ∀ j, 2 ≤ j → j < t → packet[j]? ≠ some 0 := by
  induction fuel generalizing i with
  | zero => simp [findTagEnd] at h
  | succ fuel ih =>
    rw [findTagEnd] at h
    split_ifs at h with hlt
    · obtain ⟨c, hc, h⟩ := except_bind_eq_ok.mp h
      split_ifs at h with hc0
      · obtain rfl : i = t := by simpa using h
        exact hi
      · refine ih h fun j h2 hj => ?_
        -- after the counter has wrapped around, less is known to be passed over
        have hle : j ≤ i := Nat.lt_succ_iff.mp (lt_of_lt_of_le hj (Nat.mod_le _ _))
        rcases Nat.lt_or_eq_of_le hle with hlt' | rfl
        · exact hi j h2 hlt'
        · rw [spanAt_eq_ok.mp hc]
          simpa using hc0
    · cases h

theorem slice_ne_zero {packet : StdString} {a b : Nat}
    (h : ∀ j, a ≤ j → j < b → packet[j]? ≠ some 0) : ∀ c ∈ (packet.drop a).take (b - a), c ≠ 0 := by
  intro c hc hzero
  obtain ⟨k, hk⟩ := List.mem_iff_getElem?.mp hc
  rw [List.getElem?_take] at hk
  split_ifs at hk with hlt
  rw [List.getElem?_drop, hzero] at hk
  exact h (a + k) (by omega) (by omega) hk

theorem parseTag_ne_zero {packet tag : StdString} {base : Int} (h : parseTag packet = .ok (tag, base)) :
    ∀ c ∈ tag, c ≠ 0 := by
  unfold parseTag at h
  obtain ⟨found, hfound, h⟩ := except_bind_eq_ok.mp h
  cases found with
  | none =>
    obtain rfl : [] = tag := (Prod.mk.inj (Except.ok.inj h)).1
    intro c hc
    cases hc
  | some t =>
    obtain ⟨text, htext, h⟩ := except_bind_eq_ok.mp h
    obtain rfl : text = tag := (Prod.mk.inj (Except.ok.inj h)).1
    unfold stringRange at htext
    split_ifs at htext
    obtain rfl := Except.ok.inj htext
    exact slice_ne_zero (findTagEnd_eq_some hfound fun j h2 hj => by omega)

/-- A packet that passes the checks of the header is decoded behind it, and any other is empty. -/
theorem parseLightPacket_cases (packet : StdString) :
    (Rejected packet ∧ parseLightPacket packet = .ok {}) ∨
      (¬ Rejected packet ∧ parseLightPacket packet = parseBody packet) := by
  unfold parseLightPacket Rejected
  by_cases hlen : packet.length < 3
  · exact Or.inl ⟨Or.inl hlen, if_pos hlen⟩
  · obtain ⟨a, b, rest, rfl⟩ : ∃ a b rest, packet = a :: b :: rest := by
      rcases packet with _ | ⟨a, _ | ⟨b, rest⟩⟩
      · simp at hlen
      · simp at hlen
      · exact ⟨a, b, rest, rfl⟩
    rw [if_neg hlen]
    by_cases ha : a = 1
    · by_cases hb : b = 0
      · refine Or.inr ⟨?_, ?_⟩
        · simp only [List.getElem?_cons_zero, List.getElem?_cons_succ, ha, hb]
          simpa using hlen
        · simp [spanAt, ha, hb]
      · exact Or.inl ⟨Or.inr (Or.inr (by simpa using hb)), by simp [spanAt, ha, hb]⟩
    · exact Or.inl ⟨Or.inr (Or.inl (by simpa using ha)), by simp [spanAt, ha]⟩

theorem parseLightPacket_tag_ne_zero {buf : StdString} {packet : LightPacket}
    (h : parseLightPacket buf = .ok packet) : ∀ c ∈ packet.tag, c ≠ 0 := by
  rcases parseLightPacket_cases buf with ⟨-, hparse⟩ | ⟨-, hparse⟩
  · rw [hparse] at h
    obtain rfl := Except.ok.inj h
    intro c hc
    cases hc
  · rw [hparse, parseBody_eq_ok] at h
    obtain ⟨base, htag, -⟩ := h
    exact parseTag_ne_zero htag

theorem not_rejected {packet : StdString} (h : ¬ Rejected packet) :
    ∃ c rest, packet = 1 :: 0 :: c :: rest := by
  unfold Rejected at h
  rcases packet with _ | ⟨a, _ | ⟨b, _ | ⟨c, rest⟩⟩⟩
  case cons.cons.cons =>
    obtain ⟨rfl, rfl⟩ : a = 1 ∧ b = 0 := by simpa using h
    exact ⟨c, rest, rfl⟩
  all_goals simp at h

theorem decodePacket_rejected {packet : StdString} (h : Rejected packet) : decodePacket packet = {} := by
  unfold Rejected at h
  rcases packet with _ | ⟨a, _ | ⟨b, _ | ⟨c, rest⟩⟩⟩
  case cons.cons.cons =>
    unfold decodePacket
    refine if_neg ?_
    rintro ⟨rfl, rfl⟩
    simp at h
    omega
  all_goals rfl

/-- The scan of a tag that is not ended runs to the end of the packet. -/
theorem findTagEnd_unterminated {packet : StdString} (h2 : 2 ≤ packet.length)
    (hlen : packet.length < 2 ^ 31) (hne : ∀ j, 2 ≤ j → packet[j]? ≠ some 0) :
    findTagEnd packet (2 ^ 32) 2 = .ok none := by
  obtain ⟨f, hf⟩ : ∃ f, 2 ^ 32 = (f + 1) + (packet.length - 2) :=
    ⟨2 ^ 32 - 1 - (packet.length - 2), by omega⟩
  rw [hf, findTagEnd_advance packet (f + 1) (packet.length - 2) 2 (by omega) (by norm_num)]
  · rw [Nat.add_sub_cancel' h2, Nat.mod_eq_of_lt (by omega), findTagEnd,
      if_neg (Nat.lt_irrefl _)]
  · intro j h2 hj
    have hlt : j < packet.length := by omega
    exact ⟨packet[j], List.getElem?_eq_getElem hlt, fun h =>
      hne j h2 (by rw [List.getElem?_eq_getElem hlt, h])⟩

/-- Without an end of the tag, the records are read from offset 3. -/
theorem parseLightPacket_unterminated {c : Int8} {rest : StdString} (hzero : 0 ∉ c :: rest)
    (hlen : rest.length + 3 < 2 ^ 31) :
    parseLightPacket (1 :: 0 :: c :: rest) = .ok { lights := decodeRecords rest } := by
  have hfind : findTagEnd (1 :: 0 :: c :: rest) (2 ^ 32) 2 = .ok none := by
    refine findTagEnd_unterminated (by simp) (by simpa using hlen) fun j h2 hj => ?_
    obtain ⟨k, rfl⟩ : ∃ k, j = k + 2 := ⟨j - 2, by omega⟩
    exact hzero (List.mem_iff_getElem?.mpr ⟨k, hj⟩)
  have hcount : maxCount (1 :: 0 :: c :: rest) ((3 : Nat) : Int) = rest.length / 6 := by
    rw [maxCount_eq rest.length (by omega) (by simp only [List.length_cons]; omega)]
    exact Nat.mod_eq_of_lt (by omega)
  have hloop := recordLoop_eq (1 :: 0 :: c :: rest) 3 (rest.length / 6) 0 (by omega)
    (by simp only [List.length_cons]; omega)
  rw [show (1 :: 0 :: c :: rest).drop (3 + 6 * 0) = rest from rfl, decodeRecords_take] at hloop
  have hparse : parseLightPacket (1 :: 0 :: c :: rest) = parseBody (1 :: 0 :: c :: rest) := by
    rcases parseLightPacket_cases (1 :: 0 :: c :: rest) with ⟨hrej, -⟩ | ⟨-, hparse⟩
    · exact absurd hrej (by simp [Rejected])
    · exact hparse
  rw [hparse, parseBody_eq_ok]
  refine ⟨((3 : Nat) : Int), ?_, by rw [hcount, hloop]⟩
  unfold parseTag
  rw [hfind, ok_bind]
  rfl

/-- Every packet of less than `2^31` bytes is decoded as the format says. -/
theorem parseLightPacket_eq_decodePacket {packet : StdString} (hlen : packet.length < 2 ^ 31) :
    parseLightPacket packet = .ok (decodePacket packet) := by
  rcases parseLightPacket_cases packet with ⟨hrej, hparse⟩ | ⟨hrej, -⟩
  · rw [hparse, decodePacket_rejected hrej]
  · obtain ⟨c, rest, rfl⟩ := not_rejected hrej
    rw [decodePacket, if_pos ⟨rfl, rfl⟩]
    split_ifs with hzero
    · -- the tag goes up to the first zero byte
      obtain ⟨tag, body, hsplit, hnot⟩ := List.eq_append_cons_of_mem hzero
      have htag : ∀ d ∈ tag, d ≠ 0 := fun d hd h0 => hnot (h0 ▸ hd)
      have htake : (tag ++ 0 :: body).takeWhile (· ≠ 0) = tag := by
        rw [List.takeWhile_append_of_pos (by simpa using htag)]
        simp
      have hdrop : (tag ++ 0 :: body).dropWhile (· ≠ 0) = 0 :: body := by
        rw [List.dropWhile_append_of_pos (by simpa using htag)]
        simp
      have hlength : (taggedPacket tag body).length < 2 ^ 31 := by
        rw [taggedPacket, ← hsplit]
        exact hlen
      rw [taggedPacket_length] at hlength
      rw [hsplit, htake, hdrop]
      exact parseLightPacket_terminated htag (by omega) (by omega)
    · exact parseLightPacket_unterminated hzero (by simpa using hlen)

end Valoserveri
