import Valoserveri.Proofs.ReadObjectProofs
import Valoserveri.Proofs.MonitorProofs

/-!
# The monitor message says what the state is

The keys of the object that `updateMonitorMessage` builds are all different, and the page reads the
number of the lights, the tag and every colour back from its text. So different states have different
messages.
-/

namespace Valoserveri

open ExceptRun

/-! ## Numerals and colours -/

theorem stdToString_injective : Function.Injective stdToString :=
  Function.LeftInverse.injective digitsValue_stdToString

theorem hexByte_hex2 (b : UInt8) : ∃ high low, hex2 b = [high, low] ∧ hexByte high low = some b := by
  refine ⟨_, _, rfl, ?_⟩
  have h : ∀ n : Fin 256, hexByte (hexDigit 97 ((UInt8.ofNat n).toNat / 16))
      (hexDigit 97 ((UInt8.ofNat n).toNat % 16)) = some (UInt8.ofNat n) := by decide +kernel
  have hb := h ⟨b.toNat, b.toNat_lt⟩
  simpa using hb

/-- The colour of a box is the colour that is dumped. -/
theorem boxColor_hexColor (color : Color) : boxColor (hexColor color) = some color := by
  obtain ⟨r₁, r₀, hred, hred'⟩ := hexByte_hex2 color.red
  obtain ⟨g₁, g₀, hgreen, hgreen'⟩ := hexByte_hex2 color.green
  obtain ⟨b₁, b₀, hblue, hblue'⟩ := hexByte_hex2 color.blue
  unfold hexColor
  rw [hred, hgreen, hblue]
  show (hexByte r₁ r₀).bind _ = _
  rw [hred', hgreen', hblue']
  rfl

/-! ## The keys of the message -/

/-- The keys of an object are all different. -/
def Json.Distinct (j : Json) : Prop := (j.map Prod.fst).Nodup

theorem lookup_cons (k key : StdString) (value : JsonValue) (j : Json) :
    List.lookup k ((key, value) :: j) = if k = key then some value else List.lookup k j := by
  by_cases hk : k = key
  · simp [hk]
  · simp [List.lookup_cons, hk, beq_eq_false_iff_ne.mpr hk]

theorem lookup_set (key k : StdString) (value : JsonValue) (j : Json) :
    (Json.set key value j).lookup k = if k = key then some value else j.lookup k := by
  induction j with
  | nil => exact lookup_cons k key value []
  | cons entry j ih =>
    obtain ⟨k', v'⟩ := entry
    rw [Json.set]
    by_cases heq : k' = key
    · rw [if_pos heq, lookup_cons, lookup_cons, heq]
      split_ifs <;> rfl
    · rw [if_neg heq]
      by_cases hless : keyLess key k' = true
      · rw [if_pos hless, lookup_cons]
      · rw [if_neg hless, lookup_cons, ih, lookup_cons]
        by_cases hk : k = key
        · have hne : k ≠ k' := fun hk' => heq (hk'.symm.trans hk)
          rw [if_neg hne, if_pos hk, if_pos hk]
        · rw [if_neg hk, if_neg hk]

/-- A new key is put somewhere among the others. -/
theorem set_perm {key : StdString} {j : Json} (value : JsonValue) (h : key ∉ j.map Prod.fst) :
    (Json.set key value j).Perm ((key, value) :: j) := by
  induction j with
  | nil => exact .refl _
  | cons entry j ih =>
    obtain ⟨k', v'⟩ := entry
    have hne : k' ≠ key := fun heq => h (by simp [heq])
    unfold Json.set
    rw [if_neg hne]
    split_ifs with hless
    · exact .refl _
    · have htail := ih fun hmem => h (List.mem_cons_of_mem _ hmem)
      exact (htail.cons (k', v')).trans (.swap (key, value) (k', v') j)

theorem Json.Distinct.set {key : StdString} {j : Json} (hj : j.Distinct) (value : JsonValue)
    (h : j.lookup key = none) : (Json.set key value j).Distinct := by
  have hnot : key ∉ j.map Prod.fst := by
    intro hmem
    obtain ⟨entry, hentry, rfl⟩ := List.mem_map.mp hmem
    simpa using List.lookup_eq_none_iff.mp h entry hentry
  unfold Json.Distinct
  rw [((set_perm value hnot).map Prod.fst).nodup_iff]
  exact List.nodup_cons.mpr ⟨hnot, hj⟩

/-- The key of light `i`. -/
def lightKey (i : Nat) : StdString := lit "light" ++ stdToString i

theorem lightKey_injective : Function.Injective lightKey := by
  intro i j h
  exact stdToString_injective (List.append_cancel_left h)

theorem lightKey_ne (i : Nat) : lightKey i ≠ lit "numLights" ∧ lightKey i ≠ lit "tag" := by
  have hhead : (lightKey i).head? = some 108 := rfl
  constructor
  · intro h
    rw [h] at hhead
    exact absurd hhead (by decide)
  · intro h
    rw [h] at hhead
    exact absurd hhead (by decide)

/-! ## The object of a state -/

theorem addLightEntry_eq {acc : UnorderedMap UInt32 Color × Json} {i : Nat} {color : Color}
    (h : acc.1.lookup (UInt32.ofNat i) = some color) :
    addLightEntry acc i = (acc.1, Json.set (lightKey i) (.string (hexColor color)) acc.2) := by
  unfold addLightEntry indexOrInsert
  rw [h]
  rfl

/-- The loop writes the colours of the lights to the keys of the lights, and nothing else. -/
theorem lookup_foldl_addLightEntry (lights : UnorderedMap UInt32 Color) (j : Json) (n : Nat)
    (h : ∀ i < n, UInt32.ofNat i ∈ lights) :
    (∀ i < n, ((List.range n).foldl addLightEntry (lights, j)).2.lookup (lightKey i) =
      (lights.lookup (UInt32.ofNat i)).map fun color => .string (hexColor color)) ∧
    ∀ key, (∀ i < n, key ≠ lightKey i) →
      ((List.range n).foldl addLightEntry (lights, j)).2.lookup key = j.lookup key := by
  induction n with
  | zero => exact ⟨fun i hi => absurd hi (Nat.not_lt_zero i), fun key _ => rfl⟩
  | succ n ih =>
    obtain ⟨hlight, hother⟩ := ih fun i hi => h i (by omega)
    have hlights : ((List.range n).foldl addLightEntry (lights, j)).1 = lights :=
      foldl_addLightEntry_lights _ _ fun i hi => h i (by have := List.mem_range.mp hi; omega)
    obtain ⟨color, hcolor⟩ := Finmap.mem_iff.mp (h n (by omega))
    -- the last light
    have hstep : ((List.range (n + 1)).foldl addLightEntry (lights, j)).2 =
        Json.set (lightKey n) (.string (hexColor color))
          ((List.range n).foldl addLightEntry (lights, j)).2 := by
      rw [List.range_succ, List.foldl_concat, addLightEntry_eq (by rw [hlights]; exact hcolor)]
    rw [hstep]
    refine ⟨fun i hi => ?_, fun key hkey => ?_⟩
    · rw [lookup_set]
      by_cases hin : i = n
      · rw [hin, if_pos rfl, hcolor]
        rfl
      · rw [if_neg (lightKey_injective.ne hin)]
        exact hlight i (by omega)
    · rw [lookup_set, if_neg (hkey n (by omega))]
      exact hother key fun i hi => hkey i (by omega)

/-- The keys of the loop are new, as long as the object has none of them before. -/
theorem distinct_foldl_addLightEntry (lights : UnorderedMap UInt32 Color) (j : Json) (n : Nat)
    (h : ∀ i < n, UInt32.ofNat i ∈ lights) (hj : j.Distinct) (hnew : ∀ i, j.lookup (lightKey i) = none) :
    ((List.range n).foldl addLightEntry (lights, j)).2.Distinct := by
  induction n with
  | zero => exact hj
  | succ n ih =>
    have hn : ∀ i < n, UInt32.ofNat i ∈ lights := fun i hi => h i (by omega)
    have hlast := (lookup_foldl_addLightEntry lights j n hn).2 (lightKey n) fun i hi =>
      lightKey_injective.ne (by omega)
    rw [List.range_succ, List.foldl_concat]
    exact (ih hn).set _ (hlast.trans (hnew n))

/-- What the text of a state says under which key. -/
structure Json.Describes (j : Json) (state : LightState) (n : Nat) : Prop where
  distinct : j.Distinct
  safe : SafeJson j
  numLights : j.lookup (lit "numLights") = some (.number n)
  tag : j.lookup (lit "tag") = some (.string state.tag)
  light : ∀ i < n, ∃ color, state.lights.lookup (UInt32.ofNat i) = some color ∧
    j.lookup (lightKey i) = some (.string (hexColor color))

/-- The entries that are there before the loop. -/
def fixedEntries (tag : StdString) (n : Nat) : Json :=
  Json.set (lit "tag") (.string tag) (Json.set (lit "numLights") (.number n) [])

theorem fixedEntries_distinct (tag : StdString) (n : Nat) : (fixedEntries tag n).Distinct := by
  have hfirst : (Json.set (lit "numLights") (.number n) []).Distinct := List.nodup_singleton _
  refine hfirst.set _ ?_
  rw [lookup_set, if_neg (by decide)]
  rfl

theorem lookup_fixedEntries (tag : StdString) (n i : Nat) :
    (fixedEntries tag n).lookup (lightKey i) = none := by
  obtain ⟨hnumLights, htag⟩ := lightKey_ne i
  unfold fixedEntries
  rw [lookup_set, if_neg htag, lookup_set, if_neg hnumLights]
  rfl

/-- The object of a state with `n` lights says what the state is. -/
theorem toJson_describes {state : LightState} {n : Nat} (hn : n < 2 ^ 31)
    (hnum : Numbered n state.lights) (htag : Safe state.tag) : state.toJson.2.Describes state n := by
  have hmem : ∀ i < n, UInt32.ofNat i ∈ state.lights := fun i hi => hnum.mem hi
  have hjson : state.toJson.2 =
      ((List.range n).foldl addLightEntry (state.lights, fixedEntries state.tag n)).2 := by
    unfold LightState.toJson fixedEntries
    rw [hnum.count hn]
  obtain ⟨hlight, hother⟩ := lookup_foldl_addLightEntry state.lights (fixedEntries state.tag n) n hmem
  refine ⟨?_, safeJson_toJson htag, ?_, ?_, fun i hi => ?_⟩
  · rw [hjson]
    exact distinct_foldl_addLightEntry _ _ n hmem (fixedEntries_distinct _ _) (lookup_fixedEntries _ _)
  · rw [hjson, hother _ fun i _ => (lightKey_ne i).1.symm]
    unfold fixedEntries
    rw [lookup_set, if_neg (by decide), lookup_set, if_pos rfl]
  · rw [hjson, hother _ fun i _ => (lightKey_ne i).2.symm]
    unfold fixedEntries
    rw [lookup_set, if_pos rfl]
  · obtain ⟨color, hcolor⟩ := Finmap.mem_iff.mp (hmem i hi)
    refine ⟨color, hcolor, ?_⟩
    rw [hjson, hlight i hi, hcolor]
    rfl

/-! ## What the page reads -/

/-- `parse` inverts `dump` on objects whose strings need no escapes: it gives the values of the
    object. -/
def InvertsDump (parse : StdString → Option JsObject) : Prop :=
  ∀ (j : Json) (text : StdString), SafeJson j → j.Distinct → j.dump = .ok text →
    parse text = some j.toObject

theorem mapM_eq_some {α β : Type} {f : α → Option β} {g : α → β} {as : List α}
    (h : ∀ a ∈ as, f a = some (g a)) : as.mapM f = some (as.map g) := by
  induction as with
  | nil => rfl
  | cons a as ih =>
    rw [List.mapM_cons, h a (by simp), ih fun b hb => h b (List.mem_cons_of_mem _ hb)]
    rfl

theorem toObject_text {j : Json} {key s : StdString} (h : j.lookup key = some (.string s)) :
    j.toObject.text key = some s := by
  unfold JsObject.text Json.toObject
  simp only [h]

/-- The page shows what the object says. -/
theorem Json.Describes.updateViz_eq {j : Json} {state : LightState} {n : Nat} (h : j.Describes state n) :
    updateViz j.toObject = some {
      tag := state.tag
      lights := (List.range n).map fun i =>
        hexColor ((state.lights.lookup (UInt32.ofNat i)).getD {}) } := by
  have hnumLights : j.toObject (lit "numLights") = some (.number n) := h.numLights
  have hlights : ∀ i ∈ List.range n, j.toObject.text (lit "light" ++ stdToString i) =
      some (hexColor ((state.lights.lookup (UInt32.ofNat i)).getD {})) := by
    intro i hi
    obtain ⟨color, hcolor, hlight⟩ := h.light i (List.mem_range.mp hi)
    rw [hcolor]
    exact toObject_text hlight
  unfold updateViz
  rw [hnumLights]
  simp only
  rw [toObject_text h.tag, Option.bind_some, mapM_eq_some hlights, Option.bind_some]

/-- What is read of a state: as many lights as it has, its tag, and the colour of every light. -/
structure Viz.Shows (viz : Viz) (state : LightState) : Prop where
  numLights : viz.lights.length = state.lights.keys.card
  tag : viz.tag = state.tag
  colors : ∀ k : UInt32, (viz.lights[k.toNat]?).bind boxColor = state.lights.lookup k

/-- A state is determined by what is shown of it. -/
theorem Viz.Shows.state_eq {viz : Viz} {state state' : LightState} (h : viz.Shows state)
    (h' : viz.Shows state') : state = state' := by
  obtain ⟨tag, lights⟩ := state
  obtain ⟨tag', lights'⟩ := state'
  obtain rfl : tag = tag' := h.tag.symm.trans h'.tag
  obtain rfl : lights = lights' := Finmap.ext_lookup fun k => (h.colors k).symm.trans (h'.colors k)
  rfl

theorem Json.Describes.exists_shows {j : Json} {state : LightState} {n : Nat} (h : j.Describes state n)
    (hn : n < 2 ^ 31) (hnum : Numbered n state.lights) :
    ∃ viz, updateViz j.toObject = some viz ∧ viz.Shows state := by
  refine ⟨_, h.updateViz_eq, ?_, rfl, fun k => ?_⟩
  · rw [List.length_map, List.length_range, hnum.card hn]
  · by_cases hk : k.toNat < n
    · obtain ⟨color, hcolor⟩ := Finmap.mem_iff.mp ((hnum.mem_iff hn k).mpr hk)
      rw [List.getElem?_map, List.getElem?_range hk, Option.map_some, UInt32.ofNat_toNat, hcolor]
      exact boxColor_hexColor color
    · have hnone : state.lights.lookup k = none :=
        Finmap.lookup_eq_none.mpr (mt (hnum.mem_iff hn k).mp hk)
      rw [hnone, List.getElem?_eq_none (by simpa using hk)]
      rfl

/-- Whatever the message was before, the page reads the state back from the text that is sent. -/
theorem Serveri.Reachable.payload_shows {config : Config} {s : Serveri} (hs : s.Reachable config)
    {parse : StdString → Option JsObject} (hparse : InvertsDump parse) (previous : List UInt8) :
    ∃ text t data viz, s.currentState.serialize = .ok text ∧
      ({ s with monitorMessage := previous } : Serveri).updateMonitorMessage = .ok t ∧
      t.currentState = s.currentState ∧ t.payload = text.map Int8.toUInt8 ∧
      parse (asChars t.payload) = some data ∧ updateViz data = some viz ∧ viz.Shows s.currentState := by
  have hinv : ({ s with monitorMessage := previous } : Serveri).Invariant config :=
    ⟨hs.invariant.whitelist, hs.invariant.dmx, hs.invariant.keys, hs.invariant.tag⟩
  obtain ⟨t, ht, ⟨text, htext, hpayload⟩, -⟩ := updateMonitorMessage_published hinv
  obtain ⟨message, rfl⟩ := hinv.eq_of_updated ht
  obtain ⟨n, hn, hnum⟩ := hinv.numbered
  have hdescribes := toJson_describes hn hnum hinv.tag
  have hchars : asChars (text.map Int8.toUInt8) = text := by
    unfold asChars
    rw [List.map_map]
    exact List.map_id'' (fun c => by simp) text
  obtain ⟨viz, hviz, hshows⟩ := hdescribes.exists_shows hn hnum
  refine ⟨text, _, _, viz, htext, ht, rfl, hpayload, ?_, hviz, hshows⟩
  rw [hpayload, hchars]
  exact hparse _ text hdescribes.safe hdescribes.distinct htext

theorem parseObject_invertsDump : InvertsDump parseObject := by
  intro j text hsafe _ hdump
  unfold parseObject
  rw [readObject_dump hsafe hdump]
  rfl

/-- The message is a faithful encoding of the state. Whatever it was before, the bytes that are sent are
    the text of the state, the page reads the number of the lights, the tag and all colours back from
    it, and no other state is sent as the same bytes. -/
theorem monitorMessage_faithful (parse : StdString → Option JsObject) (hparse : InvertsDump parse)
    (config : Config) (s : Serveri) (hs : s.Reachable config) (previous : List UInt8) :
    ∃ text t data viz, s.currentState.serialize = .ok text ∧
      ({ s with monitorMessage := previous } : Serveri).updateMonitorMessage = .ok t ∧
      t.currentState = s.currentState ∧ t.payload = text.map Int8.toUInt8 ∧
      (∀ lws wsi peer, callbackMonitor t lws wsi peer .SERVER_WRITEABLE =
        .ok (t, lws.write wsi (text.map Int8.toUInt8))) ∧
      parse (asChars t.payload) = some data ∧ updateViz data = some viz ∧
      viz.lights.length = s.currentState.lights.keys.card ∧ viz.tag = s.currentState.tag ∧
      (∀ k : UInt32, (viz.lights[k.toNat]?).bind boxColor = s.currentState.lights.lookup k) ∧
      ∀ (config' : Config) (s' t' : Serveri) (previous' : List UInt8), s'.Reachable config' →
        ({ s' with monitorMessage := previous' } : Serveri).updateMonitorMessage = .ok t' →
        t'.payload = t.payload → s'.currentState = s.currentState := by
  obtain ⟨text, t, data, viz, htext, ht, hstate, hpayload, hdata, hviz, hshows⟩ :=
    hs.payload_shows hparse previous
  refine ⟨text, t, data, viz, htext, ht, hstate, hpayload, fun lws wsi peer => ?_, hdata, hviz,
    hshows.numLights, hshows.tag, hshows.colors, ?_⟩
  · rw [← hpayload]
    rfl
  · intro config' s' t' previous' hs' ht' hsame
    obtain ⟨-, u, data', viz', -, hu, -, -, hdata', hviz', hshows'⟩ := hs'.payload_shows hparse previous'
    obtain rfl : u = t' := Except.ok.inj (hu.symm.trans ht')
    -- the same bytes are read in the same way
    rw [hsame, hdata] at hdata'
    obtain rfl := Option.some.inj hdata'
    rw [hviz] at hviz'
    obtain rfl := Option.some.inj hviz'
    exact hshows'.state_eq hshows

/-- A server with the default configuration, a tag and a white light, whose message is shorter than the one
    before. -/
theorem monitorMessage_faithful_distConfig :
    ∃ (s t : Serveri) (viz : Viz), s.Reachable distConfig ∧
      ({ s with monitorMessage := List.replicate 500 125 } : Serveri).updateMonitorMessage = .ok t ∧
      ((parseObject (asChars t.payload)).bind updateViz) = some viz ∧ viz.tag = lit "a" ∧
      viz.lights.length = 2 ∧ (viz.lights[0]?).bind boxColor = some white := by
  obtain ⟨s, hs, htag, hwhite, hcard⟩ := exists_reachable_tag
  obtain ⟨text, t, data, viz, -, ht, -, -, -, hdata, hviz, hlength, htag', hcolors, -⟩ :=
    monitorMessage_faithful parseObject parseObject_invertsDump distConfig s hs (List.replicate 500 125)
  refine ⟨s, t, viz, hs, ht, ?_, htag'.trans htag, hlength.trans hcard, (hcolors 0).trans hwhite⟩
  rw [hdata]
  exact hviz

end Valoserveri
