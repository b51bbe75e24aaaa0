/-!
# The journal

Diagnostics are entries of four levels. A journal keeps the entries up to its threshold; with no
threshold it keeps nothing, and no text is built. Entries are kept newest first.

* `Entry.line` is the written form of an entry: its level, a blank, its text.
* `Journal.note` and `Journal.noteAll` add entries whose text is computed only when it is kept.
-/

namespace DotMatrix

/-- How important a diagnostic is. -/
inductive Level
  | warn
  | info
  | debug
  | trace
  deriving DecidableEq, Repr

namespace Level

/-- The place of a level: the lower, the more important. -/
def rank : Level → Nat
  | warn => 1
  | info => 2
  | debug => 3
  | trace => 4

/-- The written name of a level. -/
def label : Level → String
  | warn => "WARN"
  | info => "INFO"
  | debug => "DEBUG"
  | trace => "TRACE"

end Level

/-- One diagnostic. -/
structure Entry where
  level : Level
  text : String
  deriving DecidableEq, Repr

/-- The written form of an entry. -/
def Entry.line (e : Entry) : String := e.level.label ++ " " ++ e.text

/-- The diagnostics kept so far, newest first, and the least important level that is kept. -/
structure Journal where
  threshold : Option Level := none
  entries : List Entry := []
  deriving DecidableEq, Repr

namespace Journal

/-- Whether entries of a level are kept. -/
def admits (j : Journal) (l : Level) : Bool :=
  match j.threshold with
  | none => false
  | some t => decide (l.rank ≤ t.rank)

/-- Add one entry, if its level is kept. -/
def note (j : Journal) (l : Level) (text : Unit → String) : Journal :=
  if j.admits l then { j with entries := ⟨l, text ()⟩ :: j.entries } else j

/-- Add a list of entries, oldest first, keeping those whose level is kept. -/
def noteAll (j : Journal) (es : Unit → List Entry) : Journal :=
  match j.threshold with
  | none => j
  | some _ => (es ()).foldl (fun j e => j.note e.level fun _ => e.text) j

/-- The written entries, oldest first. -/
def lines (j : Journal) : List String := (j.entries.map Entry.line).reverse

/-- The same threshold and no entries. -/
def cleared (j : Journal) : Journal := { j with entries := [] }

@[simp] theorem note_of_off (es : List Entry) (l : Level) (t : Unit → String) :
    note ⟨none, es⟩ l t = ⟨none, es⟩ := rfl

@[simp] theorem noteAll_of_off (es : List Entry) (f : Unit → List Entry) :
    noteAll ⟨none, es⟩ f = ⟨none, es⟩ := rfl

@[simp] theorem threshold_note (j : Journal) (l : Level) (t : Unit → String) :
    (j.note l t).threshold = j.threshold := by
  unfold note
  split <;> rfl

end Journal

end DotMatrix
