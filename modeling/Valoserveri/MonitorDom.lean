import Valoserveri.MonitorPage

/-!
# The elements of the monitor page

`updateViz` in `monitor.html` fills the container `viz` with a line for the tag and a box for each
light. It either builds all of them anew or changes those that are there.
-/

namespace Valoserveri

/-- The content of an element: plain text, or markup. -/
inductive Content where
  | innerText (text : StdString)
  | innerHTML (markup : StdString)
deriving Repr, DecidableEq

/-- The properties of an element that `updateViz` sets. -/
structure Element where
  id : StdString := []
  className : StdString := []
  style : StdString := []
  content : Content := .innerText []
deriving Repr, DecidableEq

/-- The elements of the container, in order. -/
abbrev Dom := List Element

/-- A value in a template literal. -/
def templateValue : Option JsonValue → StdString
  | none => lit "undefined"
  | some (.string s) => s
  | some (.number n) => stdToString n

/-- Assignments to properties of `document.getElementById(id)`, where `id` is not the id of an element in
    the markup of another one. They raise a `TypeError` if there is no such element. -/
def Dom.assign (dom : Dom) (id : StdString) (f : Element → Element) : Option Dom :=
  (dom.findIdx? fun e => e.id = id).map fun i => dom.modify i f

/-- The assignments to the line for the tag. -/
def setTag (data : JsObject) (e : Element) : Element :=
  { e with content := .innerText (lit "Last update by: " ++ templateValue (data (lit "tag"))) }

/-- The assignments to the box of light `i`. -/
def setLight (data : JsObject) (i : Nat) (e : Element) : Element :=
  let id := lit "light" ++ stdToString i
  let lightStatus := templateValue (data id)
  { e with
    id
    className := lit "light"
    style := lit "background: #" ++ lightStatus
    content := .innerHTML (lit "<div class=\"light__color\">" ++ stdToString i ++ lit ": " ++ lightStatus ++
      lit "</div>") }

/-- `updateViz` for a message with `numLights` lights, with the given value of `fullUpdate`. -/
def updateDom (fullUpdate : Bool) (data : JsObject) (numLights : Nat) (dom : Dom) : Option Dom :=
  let dom : Dom := if fullUpdate then [{ id := lit "tag-holder" }] else dom
  (dom.assign (lit "tag-holder") (setTag data)).bind fun dom =>
    (List.range numLights).foldlM (fun (dom : Dom) i =>
      if fullUpdate then some (dom ++ [setLight data i {}])
      else dom.assign (lit "light" ++ stdToString i) (setLight data i)) dom

/-- The page: the container, and the variable `lastNumLights`, which is `null` at first. -/
structure Page where
  viz : Dom := []
  lastNumLights : Option Nat := none

/-- `updateViz`. The variable `lastNumLights` stays as it is, since the assignment at the end of the
    function is to `lastNumlights`. -/
def Page.updateViz (page : Page) (data : JsObject) : Option Page :=
  match data (lit "numLights") with
  | some (.number numLights) =>
    (updateDom (decide (page.lastNumLights ≠ some numLights)) data numLights page.viz).map fun viz =>
      { page with viz }
  | _ => none

/-- The handler `onmessage`, where `parse` stands for `JSON.parse`. -/
def Page.incoming (parse : StdString → Option JsObject) (page : Page) (text : StdString) : Option Page :=
  (parse text).bind page.updateViz

/-! ## What is to be shown -/

/-- The box of a light. -/
def lightBox (i : Nat) (color : Color) : Element where
  id := lit "light" ++ stdToString i
  className := lit "light"
  style := lit "background: #" ++ hexColor color
  content := .innerHTML (lit "<div class=\"light__color\">" ++ stdToString i ++ lit ": " ++ hexColor color ++
    lit "</div>")

/-- The elements for a state of the lights. -/
def LightState.dom (state : LightState) : Dom :=
  { id := lit "tag-holder", content := .innerText (lit "Last update by: " ++ state.tag) } ::
    (List.range state.lights.keys.card).map fun i =>
      lightBox i ((state.lights.lookup (UInt32.ofNat i)).getD {})

end Valoserveri
