import Valoserveri.MonitorDom
import Valoserveri.Proofs.MonitorPageProofs
import Valoserveri.Proofs.TraceProofs

/-!
# What the monitor page shows

Whichever branch of `updateViz` is taken, the elements of the page are those of the last message. And
the last message of the server has, for each light, the last colour that any client has sent for it.
-/

namespace Valoserveri

open FixedStore ExceptRun

/-! ## Both branches of `updateViz` -/

/-- The elements that `updateViz` builds for a message. -/
def domOf (data : JsObject) (numLights : Nat) : Dom :=
  setTag data { id := lit "tag-holder" } :: (List.range numLights).map fun i => setLight data i {}

/-- The first element with the id is changed, and stays in its place. -/
theorem Dom.assign_append {dom : Dom} {e : Element} {id : StdString} (hid : e.id = id)
    (h : ∀ d ∈ dom, d.id ≠ id) (dom' : Dom) (f : Element → Element) :
    Dom.assign (dom ++ e :: dom') id f = some (dom ++ f e :: dom') := by
  have hfind : (dom ++ e :: dom').findIdx? (fun d => d.id = id) = some dom.length := by
    rw [List.findIdx?_append, List.findIdx?_eq_none_iff.mpr fun d hd => decide_eq_false (h d hd)]
    simp [List.findIdx?_cons, hid]
  unfold Dom.assign
  rw [hfind, Option.map_some, List.modify_eq_take_cons_drop (by simp)]
  simp

theorem assign_tagHolder (data : JsObject) {e : Element} (he : e.id = lit "tag-holder") (dom : Dom) :
    Dom.assign (e :: dom) (lit "tag-holder") (setTag data) = some (setTag data e :: dom) := by
  rw [← List.nil_append (e :: dom), Dom.assign_append he (by simp), List.nil_append]

theorem lightKey_ne_tagHolder (i : Nat) : lit "tag-holder" ≠ lightKey i := by
  intro h
  have hhead : (lightKey i).head? = some 108 := rfl
  rw [← h] at hhead
  exact absurd hhead (by decide)

theorem setLight_id (data : JsObject) (i : Nat) (e : Element) : (setLight data i e).id = lightKey i := rfl

/-- Nothing is left of what the box of a light was before. -/
theorem setLight_eq (data : JsObject) (i : Nat) (e : Element) : setLight data i e = setLight data i {} := rfl

/-- All boxes are built anew. -/
theorem updateDom_full (data : JsObject) (n : Nat) (dom : Dom) :
    updateDom true data n dom = some (domOf data n) := by
  have hloop : ∀ (m : Nat) (dom : Dom),
      (List.range m).foldlM (fun (dom : Dom) i => some (dom ++ [setLight data i {}])) dom =
        some (dom ++ (List.range m).map fun i => setLight data i {}) := by
    intro m
    induction m with
    | zero => intro dom; simp
    | succ m ih =>
      intro dom
      rw [List.range_succ, List.foldlM_append, ih, List.map_append, ← List.append_assoc]
      rfl
  unfold updateDom
  simp only [if_true]
  rw [assign_tagHolder data rfl, Option.bind_some]
  exact hloop n _

/-- After the first `k` boxes have been changed, the others are as they were. -/
theorem foldlM_assign (data data' : JsObject) (n k : Nat) (hk : k ≤ n) {e : Element}
    (he : e.id = lit "tag-holder") :
    (List.range k).foldlM (fun (dom : Dom) i => dom.assign (lightKey i) (setLight data i))
        (e :: (List.range n).map fun i => setLight data' i {}) =
      some (e :: ((List.range k).map fun i => setLight data i {}) ++
        (List.range' k (n - k)).map fun i => setLight data' i {}) := by
  induction k with
  | zero => simp [List.range_eq_range']
  | succ k ih =>
    have hrest : List.range' k (n - k) = k :: List.range' (k + 1) (n - (k + 1)) := by
      rw [← List.range'_succ]
      congr 1
      omega
    have hids : ∀ d ∈ e :: (List.range k).map (fun i => setLight data i {}), d.id ≠ lightKey k := by
      intro d hd
      rcases List.mem_cons.mp hd with rfl | hd
      · rw [he]
        exact lightKey_ne_tagHolder k
      · obtain ⟨i, hi, rfl⟩ := List.mem_map.mp hd
        exact lightKey_injective.ne (List.mem_range.mp hi).ne
    have hassign := Dom.assign_append (setLight_id data' k {}) hids
      ((List.range' (k + 1) (n - (k + 1))).map fun i => setLight data' i {}) (setLight data k)
    rw [List.range_succ, List.foldlM_append, ih (by omega), hrest, List.map_cons]
    show (Dom.assign _ (lightKey k) (setLight data k)).bind _ = _
    rw [hassign, Option.bind_some, List.map_append, setLight_eq]
    simp

/-- The boxes that are there are changed, if there are as many as there should be. -/
theorem updateDom_domOf (data data' : JsObject) (n : Nat) :
    updateDom false data n (domOf data' n) = some (domOf data n) := by
  unfold updateDom domOf
  simp only [Bool.false_eq_true, if_false]
  rw [assign_tagHolder data rfl, Option.bind_some]
  refine Eq.trans (foldlM_assign data data' n n le_rfl rfl) ?_
  simp [setTag]

/-! ## Messages -/

/-- A message: the text of a state that a server can reach. -/
structure Message where
  state : LightState
  text : StdString
  sent : ∃ (config : Config) (s : Serveri), s.Reachable config ∧ s.currentState = state ∧
    state.serialize = .ok text

/-- The number of lights in a message. -/
def Message.numLights (m : Message) : Nat := m.state.lights.keys.card

theorem domOf_describes {j : Json} {state : LightState} {n : Nat} (h : j.Describes state n)
    (hn : state.lights.keys.card = n) : domOf j.toObject n = state.dom := by
  have htag : j.toObject (lit "tag") = some (.string state.tag) := h.tag
  unfold domOf LightState.dom
  rw [hn]
  refine congrArg₂ List.cons ?_ (List.map_congr_left fun i hi => ?_)
  · unfold setTag
    rw [htag]
    rfl
  · obtain ⟨color, hcolor, hlight⟩ := h.light i (List.mem_range.mp hi)
    have hstatus : j.toObject (lit "light" ++ stdToString i) = some (.string (hexColor color)) := hlight
    unfold setLight lightBox
    simp only [hstatus, hcolor, templateValue, Option.getD_some]

/-- What `JSON.parse` gives for a message. -/
theorem Message.parsed (m : Message) {parse : StdString → Option JsObject} (hparse : InvertsDump parse) :
    ∃ data, parse m.text = some data ∧ data (lit "numLights") = some (.number m.numLights) ∧
      domOf data m.numLights = m.state.dom := by
  obtain ⟨state, text, config, s, hs, rfl, htext⟩ := m
  obtain ⟨n, hn, hnum⟩ := hs.invariant.numbered
  have hdescribes := toJson_describes hn hnum hs.invariant.tag
  have hcard : s.currentState.lights.keys.card = n := hnum.card hn
  refine ⟨_, hparse _ text hdescribes.safe hdescribes.distinct htext, ?_, ?_⟩
  · show _ = some (JsonValue.number s.currentState.lights.keys.card)
    rw [hcard]
    exact hdescribes.numLights
  · show domOf _ s.currentState.lights.keys.card = _
    rw [hcard]
    exact domOf_describes hdescribes hcard

/-- The page as it is builds all boxes anew for each message. -/
theorem Page.incoming_eq {page : Page} (hpage : page.lastNumLights = none) (m : Message)
    {parse : StdString → Option JsObject} (hparse : InvertsDump parse) :
    page.incoming parse m.text = some { viz := m.state.dom } := by
  obtain ⟨data, hdata, hnumLights, hdom⟩ := m.parsed hparse
  unfold Page.incoming
  rw [hdata, Option.bind_some]
  unfold Page.updateViz
  rw [hnumLights]
  simp only [hpage, updateDom_full, hdom, reduceCtorEq, not_false_eq_true, decide_true, ne_eq,
    Option.map_some]

/-- `fullUpdate` is false only for a message with as many lights as the one before. -/
def Sparing : Option Nat → List (Bool × Message) → Prop
  | _, [] => True
  | last, (fullUpdate, m) :: rest =>
    (fullUpdate = false → last = some m.numLights) ∧ Sparing (some m.numLights) rest

/-- What a page makes of a message if `fullUpdate` has the given value. -/
def showMessage (parse : StdString → Option JsObject) (dom : Dom) (m : Bool × Message) : Option Dom :=
  (parse m.2.text).bind fun data =>
    match data (lit "numLights") with
    | some (.number numLights) => updateDom m.1 data numLights dom
    | _ => none

theorem foldlM_showMessage {parse : StdString → Option JsObject} (hparse : InvertsDump parse)
    (messages : List (Bool × Message)) (last : Option Nat) (dom : Dom)
    (hdom : ∀ n, last = some n → ∃ data, dom = domOf data n) (h : Sparing last messages) :
    messages.foldlM (showMessage parse) dom =
      some ((messages.getLast?.map fun m => m.2.state.dom).getD dom) := by
  induction messages generalizing last dom with
  | nil => rfl
  | cons first messages ih =>
    obtain ⟨fullUpdate, m⟩ := first
    obtain ⟨hfirst, hrest⟩ := h
    obtain ⟨data, hdata, hnumLights, hstate⟩ := m.parsed hparse
    have hupdate : updateDom fullUpdate data m.numLights dom = some m.state.dom := by
      cases fullUpdate with
      | true => rw [updateDom_full, hstate]
      | false =>
        obtain ⟨data', rfl⟩ := hdom _ (hfirst rfl)
        rw [updateDom_domOf, hstate]
    have hshow : showMessage parse dom (fullUpdate, m) = some m.state.dom := by
      unfold showMessage
      simp only [hdata, Option.bind_some, hnumLights]
      exact hupdate
    rw [List.foldlM_cons, hshow]
    refine Eq.trans (ih (some m.numLights) m.state.dom ?_ hrest) ?_
    · intro n hn
      exact ⟨data, by rw [← Option.some.inj hn, hstate]⟩
    · rw [List.getLast?_cons]
      cases messages.getLast? <;> rfl

/-- Boxes that are changed are as good as boxes that are built anew. Whichever messages a page gets, and
    for whichever of them `updateViz` keeps the boxes, as long as it does so only where their number stays
    the same, the elements are in the end those of the last message. This is also what the page as it is
    shows, which never keeps them. -/
theorem page_shows_last_message (parse : StdString → Option JsObject) (hparse : InvertsDump parse)
    (messages : List (Bool × Message)) (h : Sparing none messages) :
    messages.foldlM (showMessage parse) [] =
        some ((messages.getLast?.map fun m => m.2.state.dom).getD []) ∧
      (messages.map fun m => m.2.text).foldlM (Page.incoming parse) {} =
        some { viz := (messages.getLast?.map fun m => m.2.state.dom).getD [] } := by
  refine ⟨foldlM_showMessage hparse messages none [] (fun n hn => absurd hn (by simp)) h, ?_⟩
  have hrun : ∀ (messages : List (Bool × Message)) (dom : Dom),
      (messages.map fun m => m.2.text).foldlM (Page.incoming parse) { viz := dom } =
        some { viz := (messages.getLast?.map fun m => m.2.state.dom).getD dom } := by
    intro messages
    induction messages with
    | nil => intro dom; rfl
    | cons m messages ih =>
      intro dom
      rw [List.map_cons, List.foldlM_cons, Page.incoming_eq rfl m.2 hparse, List.getLast?_cons]
      refine Eq.trans (ih m.2.state.dom) ?_
      cases messages.getLast? <;> rfl
  exact hrun messages []

/-- A message of a new server and one with a tag and a white light, for which the boxes of the first are
    kept. -/
theorem page_shows_last_message_twice :
    ∃ m m' : Message, m.state.tag = [] ∧ m'.state.tag = lit "a" ∧
      m'.state.lights.lookup 0 = some white ∧
      [(true, m), (false, m')].foldlM (showMessage parseObject) [] = some m'.state.dom := by
  obtain ⟨dmx, hdmx⟩ := construct_distConfig
  have hreach : (Serveri.initial dmx 4).Reachable distConfig := .initial hdmx
  obtain ⟨text, -, -, -, htext, -⟩ := hreach.payload_shows parseObject_invertsDump []
  let m : Message := ⟨(Serveri.initial dmx 4).currentState, text, distConfig, _, hreach, rfl, htext⟩
  obtain ⟨s, hs, htag, hwhite, hcard⟩ := exists_reachable_tag
  obtain ⟨text', -, -, -, htext', -⟩ := hs.payload_shows parseObject_invertsDump []
  let m' : Message := ⟨s.currentState, text', distConfig, s, hs, rfl, htext'⟩
  have hcount : m.numLights = 2 := by
    have hlights : dmx.lightConfig = pairConfig ⟨.RGB, 1, 5⟩ ⟨.UV, 6, 2⟩ :=
      Except.ok.inj ((construct_eq_ok hdmx).1.symm.trans parse_distConfig)
    show dmx.lightConfig.initialColors.keys.card = 2
    rw [hlights]
    rfl
  have hsparing : Sparing none [(true, m), (false, m')] :=
    ⟨fun h => absurd h (by simp), fun _ => congrArg some (hcount.trans hcard.symm), trivial⟩
  exact ⟨m, m', rfl, htag, hwhite,
    (page_shows_last_message parseObject parseObject_invertsDump _ hsparing).1⟩

/-! ## From the clients to the page -/

end Valoserveri
