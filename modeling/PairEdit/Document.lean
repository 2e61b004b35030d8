import PairEdit.Edit
import PairEdit.Fault

/-!
# Documents

A document is a text that tells its listeners of every edit.  A successful
edit changes the text first and then calls the listeners that were registered
at that moment, in the order of their registration; a refused edit changes
nothing and calls nobody.

What a listener does when it is called may reach back to the document, or
anywhere else.  So `Document.replaceIn` works on a larger state in which the
document lives, and the listeners' calls are transformations of that state.
-/

namespace PairEdit

/-- Why a document does not take an edit. -/
inductive DocumentError where
  | invalidEdit (reason : EditError)
  /-- The surface behind the document refuses for a reason of its own. -/
  | rejected (reason : String)
deriving DecidableEq, Repr

/-- What is reported to the user. -/
def DocumentError.message : DocumentError → String
  | .invalidEdit reason => "invalid edit: " ++ reason.message
  | .rejected reason => "document rejected edit: " ++ reason

/-- A text with listeners of kind `κ`. -/
structure Document (κ : Type) where
  text : Text
  /-- The listeners and their numbers, in the order of registration. -/
  listeners : List (Nat × κ)
  /-- The number the next listener gets; numbers are not used again. -/
  nextId : Nat
deriving Repr

namespace Document

variable {κ σ : Type}

/-- A document that nobody listens to yet. -/
def ofText (text : Text) : Document κ := ⟨text, [], 1⟩

instance : Inhabited (Document κ) := ⟨ofText []⟩

/-- The number of characters. -/
def length (d : Document κ) : Nat := d.text.length

/-- Register a listener; the result names it. -/
def listen (d : Document κ) (listener : κ) : Nat × Document κ :=
  (d.nextId, { d with
    listeners := d.listeners ++ [(d.nextId, listener)]
    nextId := d.nextId + 1 })

/-- Remove a listener; the result tells whether it was registered. -/
def unlisten (d : Document κ) (id : Nat) : Bool × Document κ :=
  (d.listeners.any fun l => l.1 == id,
    { d with listeners := d.listeners.filter fun l => l.1 != id })

/-- A registered listener on one line. -/
def describeSubscription (id : Nat) : String :=
  s!"EditSubscription \x7b id: ListenerId({id}) \x7d"

/-- The edit that puts `text` in place of everything. -/
def overwriting (d : Document κ) (text : Text) : Edit := ⟨0, d.length, text⟩

/-- Where in a state a document lives. -/
structure Site (σ κ : Type) where
  get : σ → Document κ
  put : Document κ → σ → σ

/-- Call listeners one after another. -/
def notify (call : Edit → κ → σ → Except Fault σ) (e : Edit) :
    List (Nat × κ) → σ → Except Fault σ
  | [], s => .ok s
  | l :: rest, s => do
      let s ← call e l.2 s
      notify call e rest s

/-- Carry an edit out on the document at `site` and tell its listeners. -/
def replaceIn (site : Site σ κ) (call : Edit → κ → σ → Except Fault σ) (e : Edit) (s : σ) :
    Except Fault (Except DocumentError Unit × σ) :=
  let d := site.get s
  match e.apply d.text with
  | .error reason => .ok (.error (.invalidEdit reason), s)
  | .ok text => do
      let s ← notify call e d.listeners (site.put { d with text := text } s)
      return (.ok (), s)

end Document

end PairEdit
