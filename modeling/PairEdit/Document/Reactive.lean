import PairEdit.Document

/-!
# Documents with reacting listeners

A document whose listeners react to being called: each follows a script that
says, call by call, what it does to the document it listens to.  An edit made
in reaction runs to its end, with all the calls it leads to, before the
listener that made it goes on.  Everything that happens is logged.
-/

namespace PairEdit

/-- What a listener may do when it is called. -/
inductive Reaction where
  /-- Remove the listener with a number. -/
  | remove (id : Nat)
  /-- Add a listener with a name and a script of its own. -/
  | enlist (tag : String) (script : List (List Reaction))
  | replace (edit : Edit)
deriving Repr

/-- Add a listener that never reacts. -/
def Reaction.add (tag : String) : Reaction := .enlist tag []

/-- A listener: its name, and what it does in each of the calls to come; when
the script is used up it does nothing. -/
structure Listener where
  tag : String
  script : List (List Reaction)
deriving Repr

mutual

/-- How many calls a reaction prepares a listener for: those that the listener
it adds reacts to, and so on. -/
def Reaction.turns : Reaction → Nat
  | .enlist _ script => scriptTurns script
  | _ => 0

/-- How many calls the reactions to one call prepare listeners for. -/
def turnsWithin : List Reaction → Nat
  | [] => 0
  | r :: rest => r.turns + turnsWithin rest

/-- How many calls a script is for, with those of the listeners it adds. -/
def scriptTurns : List (List Reaction) → Nat
  | [] => 0
  | now :: later => turnsWithin now + scriptTurns later + 1

end

/-- What happened, with the place of the listener that was called or that acted. -/
inductive Occurrence where
  /-- The listener was called; the text is the one it finds. -/
  | called (place : Nat) (edit : Edit) (text : Text)
  | removed (place : Nat) (wasThere : Bool)
  /-- The listener added the one with a number; the text is the one that this one finds. -/
  | added (place : Nat) (id : Nat) (text : Text)
  | replaced (place : Nat) (outcome : Except DocumentError Unit)
deriving Repr

/-- A document, its listeners at the places the document knows them by, and
what happened so far. -/
structure Reactive where
  document : Document Nat
  listeners : List Listener
  log : List Occurrence
deriving Repr

namespace Reactive

/-- A document that nobody listens to yet. -/
def ofText (text : Text) : Reactive := ⟨.ofText text, [], []⟩

/-- Where the document is. -/
def site : Document.Site Reactive Nat where
  get := document
  put d s := { s with document := d }

/-- The name of the listener at a place. -/
def tag (s : Reactive) (place : Nat) : String := (s.listeners[place]?.map Listener.tag).getD ""

/-- Log one more occurrence. -/
def record (s : Reactive) (o : Occurrence) : Reactive := { s with log := s.log ++ [o] }

/-- Register a listener; the result names it. -/
def listen (s : Reactive) (listener : Listener) : Nat × Reactive :=
  let (id, d) := s.document.listen s.listeners.length
  (id, { s with document := d, listeners := s.listeners ++ [listener] })

/-- Put another listener in the place of one. -/
def setListener (s : Reactive) (place : Nat) (listener : Listener) : Reactive :=
  { s with listeners := s.listeners.set place listener }

/-- Remove a listener; the result tells whether it was registered. -/
def unlisten (s : Reactive) (id : Nat) : Bool × Reactive :=
  let (wasThere, d) := s.document.unlisten id
  (wasThere, { s with document := d })

/-- Carry out one reaction; `write` makes the edits. -/
def react (write : Edit → Reactive → Except Fault (Except DocumentError Unit × Reactive))
    (place : Nat) (s : Reactive) : Reaction → Except Fault Reactive
  | .remove id =>
      let (wasThere, s) := s.unlisten id
      .ok (s.record (.removed place wasThere))
  | .enlist tag script =>
      let (id, s) := s.listen ⟨tag, script⟩
      .ok (s.record (.added place id s.document.text))
  | .replace e => do
      let (outcome, s) ← write e s
      return s.record (.replaced place outcome)

/-- Call a listener. -/
def call (write : Edit → Reactive → Except Fault (Except DocumentError Unit × Reactive))
    (e : Edit) (place : Nat) (s : Reactive) : Except Fault Reactive :=
  match s.listeners[place]? with
  | none => .ok s
  | some listener =>
      let s := s.record (.called place e s.document.text)
      match listener.script with
      | [] => .ok s
      | now :: later =>
          now.foldlM (react write place) (s.setListener place ⟨listener.tag, later⟩)

/-- Make an edit, with edits in reaction nested at most `depth` deep. -/
def replaceWithin : Nat → Edit → Reactive → Except Fault (Except DocumentError Unit × Reactive)
  | 0 => Document.replaceIn site (call fun _ _ => .error .endless)
  | depth + 1 => Document.replaceIn site (call (replaceWithin depth))

/-- How many calls the listeners still have a reaction for, those to be added
among them. -/
def pending (s : Reactive) : Nat := scriptTurns (s.listeners.flatMap Listener.script)

/-- Make an edit.  Each edit in reaction uses up one entry of a script, so they
cannot be nested deeper than there are entries. -/
def replace (s : Reactive) (e : Edit) : Except Fault (Except DocumentError Unit × Reactive) :=
  replaceWithin s.pending e s

end Reactive

end PairEdit
