/-
What a run of the program has to say beside its result.

An event is a plain line, which is always shown, or a log record, which is shown
if the filter admits it. The order of the events is the order of the lines, so a
filter takes lines out and changes nothing else (`shownAll_eq`).
-/
import ScriptFront.Log.Filter

set_option autoImplicit false

namespace ScriptFront.Log

/-- One thing said. -/
inductive Event where
  | record (r : Record)
  -- A line for the user, without its line end.
  | line (text : String)
deriving DecidableEq, Repr

/-- How events are shown. -/
structure Display where
  filter : Filter
  style : Style
deriving DecidableEq, Repr

namespace Display

/-- The display that shows plain lines only. -/
def silent : Display := { filter := .nothing, style := .plain }

/-- Whether an event is shown. -/
def admits (d : Display) : Event → Bool
  | .record r => d.filter.admits r
  | .line _ => true

/-- The text of an event that is shown. -/
def text (d : Display) : Event → String
  | .record r => r.line d.style
  | .line s => s ++ "\n"

/-- What an event adds to the output. -/
def shown (d : Display) (e : Event) : String := if d.admits e then d.text e else ""

/-- What a list of events adds to the output. -/
def shownAll (d : Display) (events : List Event) : String := String.join (events.map d.shown)

theorem join_map_ite {α : Type} (p : α → Bool) (f : α → String) (l : List α) :
    String.join (l.map fun a => if p a then f a else "") = String.join ((l.filter p).map f) := by
  induction l with
  | nil => rfl
  | cons a l ih =>
    by_cases h : p a
    · simp [h, ih]
    · simp [h, ih]

/-- The output is the texts of the admitted events, in their order. -/
theorem shownAll_eq (d : Display) (events : List Event) :
    d.shownAll events = String.join ((events.filter d.admits).map d.text) :=
  join_map_ite d.admits d.text events

end Display

end ScriptFront.Log
