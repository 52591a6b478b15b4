import Valoserveri.Proofs.LightPacketProofs

/-!
# Where the parser reads

`parseLightPacket` reads only inside the packet. If the tag is ended, the lights it returns are decoded
from the records behind the tag, each on its own. If the tag is not ended, bytes of the tag are taken
for records.
-/

namespace Valoserveri

open ExceptRun

/-! ## Records -/

theorem recordAt_drop (packet : StdString) (base o : Nat) :
    recordAt (packet.drop base) o = recordAt packet (base + o) := by
  unfold recordAt
  rw [List.drop_drop]

theorem records_cons (a b c d e f : Int8) (rest : StdString) :
    records (a :: b :: c :: d :: e :: f :: rest) = [a, b, c, d, e, f] :: records rest := by
  have hcount : (a :: b :: c :: d :: e :: f :: rest).length / 6 = rest.length / 6 + 1 := by
    simp only [List.length_cons]
    omega
  unfold records
  rw [hcount, List.range_succ_eq_map, List.map_cons, List.map_map]
  rfl

theorem records_eq_nil {body : StdString} (h : body.length < 6) : records body = [] := by
  unfold records
  rw [Nat.div_eq_of_lt h]
  rfl

/-- Reading off the records one after the other is decoding each of them on its own. -/
theorem decodeRecords_eq_filterMap (body : StdString) :
    decodeRecords body = (records body).filterMap decodeRecord := by
  induction body using decodeRecords.induct with
  | case1 index extension red green blue rest ih =>
    rw [records_cons, decodeRecords]
    simp [decodeRecord, ih]
  | case2 type index extension red green blue rest ht ih =>
    rw [records_cons, decodeRecords]
    simp [decodeRecord, ht, ih]
  | case3 body h =>
    have hshort : body.length < 6 := by
      by_contra hlong
      obtain ⟨a, b, c, d, e, f, rest, rfl⟩ := exists_record body (by omega)
      exact h a b c d e f rest rfl
    rw [decodeRecords.eq_2 _ h, records_eq_nil hshort]
    rfl

theorem decodeRecord_eq_none {record : StdString} (h : record.head? ≠ some 1) :
    decodeRecord record = none := by
  unfold decodeRecord
  split
  · rename_i type index extension red green blue
    exact if_neg fun htype => h (by rw [htype]; rfl)
  · rfl

theorem decodeRecord_of_eraseIdx {record other : StdString}
    (h : record.eraseIdx 2 = other.eraseIdx 2) : decodeRecord record = decodeRecord other := by
  rcases record with _ | ⟨a, _ | ⟨b, _ | ⟨c, rest⟩⟩⟩ <;>
    rcases other with _ | ⟨a', _ | ⟨b', _ | ⟨c', rest'⟩⟩⟩
  case cons.cons.cons.cons.cons.cons =>
    obtain ⟨rfl, rfl, rfl⟩ : a = a' ∧ b = b' ∧ rest = rest' := by simpa using h
    rcases rest with _ | ⟨d, _ | ⟨e, _ | ⟨f, _ | ⟨g, rest⟩⟩⟩⟩
    all_goals rfl
  all_goals simp_all [decodeRecord]

theorem SameRecord.decodeRecord_eq {record other : StdString} (h : SameRecord record other) :
    decodeRecord record = decodeRecord other := by
  rcases h with ⟨hrecord, hother⟩ | heq
  · rw [decodeRecord_eq_none hrecord, decodeRecord_eq_none hother]
  · exact decodeRecord_of_eraseIdx heq

theorem filterMap_decodeRecord_congr {rs rs' : List StdString} (h : List.Forall₂ SameRecord rs rs') :
    rs.filterMap decodeRecord = rs'.filterMap decodeRecord := by
  induction h with
  | nil => rfl
  | cons hr _ ih => rw [List.filterMap_cons, List.filterMap_cons, hr.decodeRecord_eq, ih]

/-! ## Packets whose tag is ended -/

section TagEnd

variable {packet : StdString} {t : Nat}

theorem TagEnd.lt_length (h : TagEnd packet t) : t < packet.length :=
  (List.getElem?_eq_some_iff.mp h.2.1).1

theorem TagEnd.tag_ne_zero (h : TagEnd packet t) : ∀ c ∈ (packet.drop 2).take (t - 2), c ≠ 0 :=
  slice_ne_zero h.2.2

/-- A packet whose tag is ended consists of the header, the tag, the zero byte and the body. -/
theorem TagEnd.eq_taggedPacket (h : TagEnd packet t) (hversion : packet[0]? = some 1)
    (hmarker : packet[1]? = some 0) :
    packet = taggedPacket ((packet.drop 2).take (t - 2)) (packet.drop (t + 1)) := by
  obtain ⟨h2, hz, -⟩ := h
  obtain ⟨k, rfl⟩ : ∃ k, t = k + 2 := ⟨t - 2, by omega⟩
  rcases packet with _ | ⟨version, _ | ⟨marker, rest⟩⟩
  · cases hversion
  · cases hmarker
  · obtain rfl : version = 1 := Option.some.inj hversion
    obtain rfl : marker = 0 := Option.some.inj hmarker
    have hget : rest[k]? = some 0 := hz
    obtain ⟨hlt, hzero⟩ := List.getElem?_eq_some_iff.mp hget
    have hsplit : rest.drop k = 0 :: rest.drop (k + 1) := by
      rw [List.drop_eq_getElem_cons hlt, hzero]
    show 1 :: 0 :: rest = 1 :: 0 :: (rest.take k ++ 0 :: rest.drop (k + 1))
    rw [← hsplit, List.take_append_drop]

theorem TagEnd.parseLightPacket_eq (h : TagEnd packet t) (hversion : packet[0]? = some 1)
    (hmarker : packet[1]? = some 0) (hlen : packet.length < 2 ^ 31) :
    parseLightPacket packet = .ok {
      tag := (packet.drop 2).take (t - 2)
      lights := (records (packet.drop (t + 1))).filterMap decodeRecord } := by
  have heq := h.eq_taggedPacket hversion hmarker
  have hlength := congrArg List.length heq
  rw [taggedPacket_length] at hlength
  rw [heq, parseLightPacket_terminated h.tag_ne_zero (by omega) (by omega), ← heq,
    decodeRecords_eq_filterMap]

theorem TagEnd.getElem?_take_append (h : TagEnd packet t) (body : StdString) {j : Nat} (hj : j ≤ t) :
    (packet.take (t + 1) ++ body)[j]? = packet[j]? := by
  have hlt := h.lt_length
  rw [List.getElem?_append_left (by rw [List.length_take]; omega), List.getElem?_take,
    if_pos (by omega)]

/-- What is put behind the end of the tag does not matter to it. -/
theorem TagEnd.take_append (h : TagEnd packet t) (body : StdString) :
    TagEnd (packet.take (t + 1) ++ body) t := by
  refine ⟨h.1, ?_, fun j h2 hj => ?_⟩
  · rw [h.getElem?_take_append body (Nat.le_refl t)]
    exact h.2.1
  · rw [h.getElem?_take_append body (Nat.le_of_lt hj)]
    exact h.2.2 j h2 hj

end TagEnd

/-- A packet whose tag is ended is decoded to its tag and the commands of its complete records of type
    1, each decoded on its own. Other records, the extension bytes and an incomplete record at the end
    do not matter. -/
theorem parseLightPacket_records (packet : StdString) (t : Nat) (hversion : packet[0]? = some 1)
    (hmarker : packet[1]? = some 0) (hend : TagEnd packet t) (hlen : packet.length < 2 ^ 31) :
    parseLightPacket packet = .ok {
      tag := (packet.drop 2).take (t - 2)
      lights := (records (packet.drop (t + 1))).filterMap decodeRecord } ∧
    ∀ body, (packet.take (t + 1) ++ body).length < 2 ^ 31 →
      List.Forall₂ SameRecord (records (packet.drop (t + 1))) (records body) →
      parseLightPacket (packet.take (t + 1) ++ body) = parseLightPacket packet := by
  have hparse := hend.parseLightPacket_eq hversion hmarker hlen
  refine ⟨hparse, fun body hlen' hsame => ?_⟩
  have h2 := hend.1
  have hlt := hend.lt_length
  have hprefix : (packet.take (t + 1)).length = t + 1 := by
    rw [List.length_take]
    omega
  have hparse' := (hend.take_append body).parseLightPacket_eq
    ((hend.getElem?_take_append body (by omega)).trans hversion)
    ((hend.getElem?_take_append body (by omega)).trans hmarker) hlen'
  have htag : ((packet.take (t + 1) ++ body).drop 2).take (t - 2) = (packet.drop 2).take (t - 2) := by
    rw [List.drop_append_of_le_length (by omega), List.take_append_of_le_length
      (by rw [List.length_drop]; omega), List.drop_take, List.take_take]
    congr 1
    omega
  rw [hparse', hparse, htag, List.drop_left' hprefix, filterMap_decodeRecord_congr hsame]

/-- A packet with the tag `a`, a record of type 2, one of type 1 and two bytes at the end, and the same
    packet with other bytes where they do not matter. -/
theorem parseLightPacket_records_mixed :
    parseLightPacket [1, 0, 97, 0, 2, 9, 9, 9, 9, 9, 1, 3, 7, 10, 20, 30, 5, 5] =
      .ok { tag := [97], lights := [{ index := 3, color := { red := 10, green := 20, blue := 30 } }] } ∧
    parseLightPacket [1, 0, 97, 0, 3, 8, 8, 8, 8, 8, 1, 3, 6, 10, 20, 30] =
      parseLightPacket [1, 0, 97, 0, 2, 9, 9, 9, 9, 9, 1, 3, 7, 10, 20, 30, 5, 5] := by
  have hend : TagEnd [1, 0, 97, 0, 2, 9, 9, 9, 9, 9, 1, 3, 7, 10, 20, 30, 5, 5] 3 := by
    refine ⟨by decide, rfl, fun j h2 hj => ?_⟩
    obtain rfl : j = 2 := by omega
    decide
  obtain ⟨hparse, hsame⟩ := parseLightPacket_records _ 3 rfl rfl hend (by decide)
  refine ⟨hparse, hsame [3, 8, 8, 8, 8, 8, 1, 3, 6, 10, 20, 30] (by decide) ?_⟩
  exact .cons (.inl (by decide)) (.cons (.inr rfl) .nil)

/-! ## Indices -/

/-- The tag of a packet ends somewhere, or there is no zero byte behind the marker. -/
theorem tagEnd_or_unterminated (packet : StdString) :
    (∃ t, TagEnd packet t) ∨ ∀ j, 2 ≤ j → packet[j]? ≠ some 0 := by
  by_cases h : ∃ j, 2 ≤ j ∧ packet[j]? = some 0
  · obtain ⟨h2, hz⟩ := Nat.find_spec h
    exact Or.inl ⟨Nat.find h, h2, hz, fun j hj hlt hzero => Nat.find_min h hlt ⟨hj, hzero⟩⟩
  · exact Or.inr fun j h2 hz => h ⟨j, h2, hz⟩

/-- What the scan finds, and where it lets the records start. -/
theorem parseTag_cases {packet : StdString} (h3 : 3 ≤ packet.length) (hlen : packet.length < 2 ^ 31) :
    (∃ t tag, TagEnd packet t ∧ findTagEnd packet (2 ^ 32) 2 = .ok (some t) ∧
      parseTag packet = .ok (tag, ((t + 1 : Nat) : Int))) ∨
    ((∀ j, 2 ≤ j → packet[j]? ≠ some 0) ∧ findTagEnd packet (2 ^ 32) 2 = .ok none ∧
      parseTag packet = .ok ([], ((3 : Nat) : Int))) := by
  rcases tagEnd_or_unterminated packet with ⟨t, hend⟩ | hne
  · have h2 := hend.1
    have hlt := hend.lt_length
    have hfind : findTagEnd packet (2 ^ 32) 2 = .ok (some t) := by
      refine findTagEnd_found h2 (by omega) (by omega) hend.2.1 fun j hj hjt => ?_
      have hjlt : j < packet.length := by omega
      exact ⟨packet[j], List.getElem?_eq_getElem hjlt, fun hz =>
        hend.2.2 j hj hjt (by rw [List.getElem?_eq_getElem hjlt, hz])⟩
    refine Or.inl ⟨t, (packet.drop 2).take (t - 2), hend, hfind, ?_⟩
    unfold parseTag
    rw [hfind, ok_bind]
    show (stringRange packet 2 t).bind _ = _
    unfold stringRange
    rw [if_neg (by omega), ok_bind, toInt_of_lt (by omega) (by omega)]
  · have hfind := findTagEnd_unterminated (by omega) hlen hne
    refine Or.inr ⟨hne, hfind, ?_⟩
    unfold parseTag
    rw [hfind, ok_bind]
    rfl

/-- The records start inside the packet or at its end. -/
theorem parseTag_base {packet tag : StdString} {base : Int} (h3 : 3 ≤ packet.length)
    (hlen : packet.length < 2 ^ 31) (h : parseTag packet = .ok (tag, base)) :
    ∃ b : Nat, base = b ∧ 3 ≤ b ∧ b ≤ packet.length := by
  rcases parseTag_cases h3 hlen with ⟨t, tag', hend, -, hparse⟩ | ⟨-, -, hparse⟩
  · have h2 := hend.1
    have hlt := hend.lt_length
    obtain ⟨-, rfl⟩ := Prod.mk.inj (Except.ok.inj (h.symm.trans hparse))
    exact ⟨t + 1, rfl, by omega, by omega⟩
  · obtain ⟨-, rfl⟩ := Prod.mk.inj (Except.ok.inj (h.symm.trans hparse))
    exact ⟨3, rfl, Nat.le_refl 3, h3⟩

theorem maxCount_of_le {packet : StdString} {b : Nat} (hb : b ≤ packet.length)
    (hlen : packet.length < 2 ^ 31) : maxCount packet (b : Int) = (packet.length - b) / 6 := by
  rw [maxCount_eq (packet.length - b) (by omega) (by omega)]
  exact Nat.mod_eq_of_lt (by omega)

theorem length_of_not_rejected {packet : StdString} (h : ¬ Rejected packet) : 3 ≤ packet.length := by
  unfold Rejected at h
  omega

theorem parseLightPacket_length_le {packet : StdString} {r : LightPacket}
    (hlen : packet.length < 2 ^ 31) (h : parseLightPacket packet = .ok r) :
    r.lights.length ≤ (packet.length - 3) / 6 := by
  rcases parseLightPacket_cases packet with ⟨-, hparse⟩ | ⟨hrej, hparse⟩
  · obtain rfl := Except.ok.inj (h.symm.trans hparse)
    exact Nat.zero_le _
  · rw [hparse, parseBody_eq_ok] at h
    obtain ⟨base, htag, hloop⟩ := h
    obtain ⟨b, rfl, h3, hb⟩ := parseTag_base (length_of_not_rejected hrej) hlen htag
    have hle := recordLoop_length_le hloop
    rw [maxCount_of_le hb hlen] at hle
    omega

/-- Packets of less than `2^31` bytes are parsed within their bounds. The tag starts before it ends and
    ends inside the packet, the records start inside it, so the number of bytes behind it does not wrap
    around, and all six bytes of each record that is looked at are there. -/
theorem parseLightPacket_in_bounds (packet : StdString) (hlen : packet.length < 2 ^ 31) :
    (∃ r, parseLightPacket packet = .ok r ∧ r.lights.length ≤ (packet.length - 3) / 6) ∧
    (¬ Rejected packet →
      (∃ found, findTagEnd packet (2 ^ 32) 2 = .ok found ∧
        ∀ t, found = some t → 2 ≤ t ∧ t < packet.length) ∧
      ∃ tag base, parseTag packet = .ok (tag, base) ∧ 3 ≤ base ∧ base ≤ packet.length ∧
        (toSize (packet.length - base) : Int) = packet.length - base ∧
        ∀ i < maxCount packet base, ∀ k : Nat, k < 6 →
          0 ≤ toInt (base + i * 6) + k ∧ toInt (base + i * 6) + k < packet.length) := by
  constructor
  · have hparse := parseLightPacket_eq_decodePacket hlen
    exact ⟨_, hparse, parseLightPacket_length_le hlen hparse⟩
  · intro hrej
    have h3 := length_of_not_rejected hrej
    obtain ⟨found, tag, base, hfind, hfound, htag⟩ : ∃ found tag base,
        findTagEnd packet (2 ^ 32) 2 = .ok found ∧
        (∀ t, found = some t → 2 ≤ t ∧ t < packet.length) ∧ parseTag packet = .ok (tag, base) := by
      rcases parseTag_cases h3 hlen with ⟨t, tag, hend, hfind, htag⟩ | ⟨-, hfind, htag⟩
      · refine ⟨some t, tag, _, hfind, fun t' ht' => ?_, htag⟩
        obtain rfl := Option.some.inj ht'
        exact ⟨hend.1, hend.lt_length⟩
      · exact ⟨none, [], _, hfind, fun t ht => (Option.some_ne_none t ht.symm).elim, htag⟩
    obtain ⟨b, rfl, hb3, hb⟩ := parseTag_base h3 hlen htag
    refine ⟨⟨found, hfind, hfound⟩, tag, b, htag, by omega, by omega, ?_, fun i hi k hk => ?_⟩
    · unfold toSize
      omega
    · rw [maxCount_of_le hb hlen] at hi
      rw [toInt_of_lt (by omega) (by omega)]
      omega

/-- A packet that ends with its tag. -/
theorem parseLightPacket_in_bounds_tag_only :
    ∃ tag base, parseTag [1, 0, 97, 0] = .ok (tag, base) ∧ base ≤ 4 := by
  have h := (parseLightPacket_in_bounds [1, 0, 97, 0] (by decide)).2 (by decide)
  obtain ⟨-, tag, base, htag, -, hle, -⟩ := h
  exact ⟨tag, base, htag, hle⟩

/-! ## Packets whose tag is not ended -/

/-- What is decoded from the records of a body lies in it, one after the other. -/
theorem exists_offsets (packet : StdString) (base : Nat) :
    ∃ offsets : List Nat, (∀ o ∈ offsets, base ≤ o) ∧ offsets.Pairwise (fun o o' => o + 6 ≤ o') ∧
      List.Forall₂ (fun o l => decodeRecord (recordAt packet o) = some l) offsets
        ((records (packet.drop base)).filterMap decodeRecord) := by
  -- the offsets of those records that are decoded to something
  have hsub : ∀ is : List Nat, ∃ os, os.Sublist (is.map fun i => base + 6 * i) ∧
      List.Forall₂ (fun o l => decodeRecord (recordAt packet o) = some l) os
        ((is.map fun i => recordAt (packet.drop base) (6 * i)).filterMap decodeRecord) := by
    intro is
    induction is with
    | nil => exact ⟨[], .slnil, .nil⟩
    | cons i is ih =>
      obtain ⟨os, hos, hdecoded⟩ := ih
      rw [List.map_cons, List.map_cons, List.filterMap_cons, recordAt_drop]
      cases hl : decodeRecord (recordAt packet (base + 6 * i)) with
      | none => exact ⟨os, hos.cons _, hdecoded⟩
      | some l => exact ⟨(base + 6 * i) :: os, hos.cons_cons _, .cons hl hdecoded⟩
  obtain ⟨os, hos, hdecoded⟩ := hsub (List.range ((packet.drop base).length / 6))
  refine ⟨os, fun o ho => ?_, ?_, hdecoded⟩
  · obtain ⟨i, -, rfl⟩ := List.mem_map.mp (hos.subset ho)
    omega
  · refine List.Pairwise.sublist hos (List.pairwise_map.mpr ?_)
    refine List.Pairwise.imp (fun {i j} hij => ?_) List.pairwise_lt_range
    omega

theorem decodeRecord_recordAt_eq_none_iff {packet : StdString} {o : Nat} (h : o + 6 ≤ packet.length) :
    decodeRecord (recordAt packet o) = none ↔ packet[o]? ≠ some 1 := by
  obtain ⟨type, index, extension, red, green, blue, rest, hd⟩ :=
    exists_record (packet.drop o) (by rw [List.length_drop]; omega)
  have hget : packet[o]? = some type := by
    have : (packet.drop o)[0]? = some type := by rw [hd]; rfl
    rwa [List.getElem?_drop] at this
  unfold recordAt
  rw [hd, hget]
  simp [decodeRecord]

/-- Nothing is decoded from a body exactly if none of its complete records is of type 1. -/
theorem filterMap_records_eq_nil_iff (packet : StdString) {base : Nat} (hbase : base ≤ packet.length) :
    (records (packet.drop base)).filterMap decodeRecord = [] ↔
      ∀ i, base + 6 * i + 6 ≤ packet.length → packet[base + 6 * i]? ≠ some 1 := by
  rw [List.filterMap_eq_nil_iff]
  constructor
  · intro h i hi
    refine (decodeRecord_recordAt_eq_none_iff hi).mp ?_
    rw [← recordAt_drop]
    refine h _ (List.mem_map.mpr ⟨i, List.mem_range.mpr ?_, rfl⟩)
    rw [List.length_drop]
    omega
  · intro h record hmem
    obtain ⟨i, hi, rfl⟩ := List.mem_map.mp hmem
    rw [List.mem_range, List.length_drop] at hi
    have hle : base + 6 * i + 6 ≤ packet.length := by omega
    rw [recordAt_drop]
    exact (decodeRecord_recordAt_eq_none_iff hle).mpr (h i hle)

theorem decodedBehindTag_of_tagEnd {packet : StdString} {t : Nat} (h : TagEnd packet t) :
    DecodedBehindTag packet ((records (packet.drop (t + 1))).filterMap decodeRecord) := by
  obtain ⟨offsets, hge, hpairwise, hdecoded⟩ := exists_offsets packet (t + 1)
  exact Or.inr ⟨t, offsets, h, fun o ho => hge o ho, hpairwise, hdecoded⟩

/-- The lights of a packet are decoded from records behind the end of its tag exactly if the packet is
    rejected, its tag is ended, or no record counted from index 3 looks like a command. -/
theorem parseLightPacket_behind_tag_iff (packet : StdString) (hlen : packet.length < 2 ^ 31) :
    (∃ r, parseLightPacket packet = .ok r ∧ DecodedBehindTag packet r.lights) ↔
      Rejected packet ∨ (∃ t, TagEnd packet t) ∨
        ∀ i, 3 + 6 * i + 6 ≤ packet.length → packet[3 + 6 * i]? ≠ some 1 := by
  rcases parseLightPacket_cases packet with ⟨hrej, hparse⟩ | ⟨hrej, -⟩
  · exact iff_of_true ⟨{}, hparse, Or.inl rfl⟩ (Or.inl hrej)
  · obtain ⟨c, rest, rfl⟩ := not_rejected hrej
    rcases tagEnd_or_unterminated (1 :: 0 :: c :: rest) with ⟨t, hend⟩ | hne
    · refine iff_of_true ⟨_, hend.parseLightPacket_eq rfl rfl hlen, ?_⟩ (Or.inr (Or.inl ⟨t, hend⟩))
      exact decodedBehindTag_of_tagEnd hend
    · have hnone : ¬ ∃ t, TagEnd (1 :: 0 :: c :: rest) t := fun ⟨t, ht⟩ => hne t ht.1 ht.2.1
      have hzero : 0 ∉ c :: rest := by
        intro hmem
        obtain ⟨k, hk⟩ := List.mem_iff_getElem?.mp hmem
        exact hne (k + 2) (by omega) hk
      have hparse := parseLightPacket_unterminated hzero (by simpa using hlen)
      rw [decodeRecords_eq_filterMap] at hparse
      have hiff := @filterMap_records_eq_nil_iff (1 :: 0 :: c :: rest) 3 (by simp)
      constructor
      · rintro ⟨r, hr, hbehind⟩
        obtain rfl := Except.ok.inj (hparse.symm.trans hr)
        rcases hbehind with hnil | ⟨t, -, hend, -⟩
        · exact Or.inr (Or.inr (hiff.mp hnil))
        · exact absurd ⟨t, hend⟩ hnone
      · rintro (h | h | h)
        · exact absurd h hrej
        · exact absurd h hnone
        · exact ⟨_, hparse, Or.inl (hiff.mpr h)⟩

/-- The light of a packet whose tag is ended comes from behind the tag. -/
theorem parseLightPacket_behind_tag_ended :
    ∃ r, parseLightPacket [1, 0, 97, 0, 1, 3, 0, 10, 20, 30] = .ok r ∧
      DecodedBehindTag [1, 0, 97, 0, 1, 3, 0, 10, 20, 30] r.lights := by
  refine (parseLightPacket_behind_tag_iff _ (by decide)).mpr (Or.inr (Or.inl ⟨3, by decide, rfl, ?_⟩))
  intro j h2 hj
  obtain rfl : j = 2 := by omega
  decide

/-- The tag of a packet that is cut off is taken for a command to light 5. -/
theorem parseLightPacket_unterminated_lights :
    ¬ ∀ packet : StdString, 3 ≤ packet.length → packet.length < 2 ^ 31 → packet[0]? = some 1 →
      packet[1]? = some 0 → (∀ j, 2 ≤ j → packet[j]? ≠ some 0) →
      ∃ r, parseLightPacket packet = .ok r ∧ r.lights = [] := by
  intro h
  have hzero : (0 : Int8) ∉ ([97, 1, 5, 98, 99, 100, 101] : StdString) := by decide
  have hne : ∀ j, 2 ≤ j → ([1, 0, 97, 1, 5, 98, 99, 100, 101] : StdString)[j]? ≠ some 0 := by
    intro j h2 hj
    obtain ⟨k, rfl⟩ : ∃ k, j = k + 2 := ⟨j - 2, by omega⟩
    exact hzero (List.mem_iff_getElem?.mpr ⟨k, hj⟩)
  obtain ⟨r, hr, hnil⟩ := h _ (by decide) (by decide) rfl rfl hne
  have hparse := parseLightPacket_unterminated hzero (by decide)
  obtain rfl := Except.ok.inj (hparse.symm.trans hr)
  cases hnil

end Valoserveri
