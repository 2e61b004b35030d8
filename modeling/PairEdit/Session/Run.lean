import PairEdit.Session.Party

/-!
# Runs

What a call leads to.  A write calls the listeners of the document, and those
of the host make calls that may write again; a hook makes its calls before the
write.  Every chain of such reactions is finite, since a hook fires once and a
host's listener uses up its script, so the number of reactions still to come
bounds how deep they can be nested.
-/

namespace PairEdit.Session

/-- Makes a call. -/
abbrev Caller := Call → World → Except Fault (Outcome × World)

namespace World

/-- Make a call, documents being written by `write`. -/
def perform (write : Writer) (c : Call) (w : World) : Except Fault (Outcome × World) :=
  match c with
  | .edit d e => do
      let (result, w) ← write d e w
      return (.edited result, w)
  | .disconnect peer => .ok (.done, { w with network := w.network.disconnect peer })
  | .start p our name other fileName d =>
      let (result, w) := w.start p our name other fileName d
      .ok (.shared result, w)
  | .accept p d => do
      let (result, w) ← w.accept write p d
      return (.shared result, w)
  | .decline p =>
      let (result, w) := w.decline p
      .ok (.shared result, w)
  | .stop p =>
      let (result, w) := w.stop p
      .ok (.shared result, w)
  | .pump p => do
      let (result, w) ← w.pump write p
      return (.pumped result, w)
  | .handleNext p => do
      let (result, w) ← w.handleNext write p
      return (.next result, w)
  | .handleMessage p sender payload => do
      let (result, w) ← w.handleMessage write p sender payload
      return (.shared result, w)
  | .handleDisconnect p peer => .ok (.done, w.handleDisconnect p peer)
  | .serve p => do
      let (closed, w) ← w.serve write p
      return (.served closed, w)

/-- Make calls in reaction to something, and log what came of them. -/
def reactAll (caller : Caller) : List Call → World → Except Fault World
  | [], w => .ok w
  | c :: rest, w => do
      let (outcome, w) ← caller c w
      reactAll caller rest { w with log := w.log ++ [outcome] }

/-- Call a listener of a document. -/
def notifyOne (caller : Caller) (e : Edit) : Subscriber → World → Except Fault World
  | .capture p epoch, w => w.capture p epoch e
  | .host i, w =>
      match w.scripts.get i with
      | [] => .ok w
      | now :: later => reactAll caller now { w with scripts := w.scripts.set i later }

/-- Carry out an edit and call the listeners. -/
def commit (caller : Caller) (d : Nat) (e : Edit) (w : World) :
    Except Fault (Except DocumentError Unit × World) :=
  Document.replaceIn (site d) (notifyOne caller) e w

/-- Make the calls of a hook that has fired, and let go of each of them when it
has been made. -/
def makeAll (caller : Caller) : List Call → World → Except Fault World
  | [], w => .ok w
  | c :: rest, w => do
      let (outcome, w) ← caller c w
      makeAll caller rest { w with log := w.log ++ [outcome] }.callDone

/-- Write to a document: what its hook does comes first. -/
def writeVia (caller : Caller) : Writer := fun d e w =>
  match (w.surfaces.get d).hook with
  | none => w.commit caller d e
  | some hook => do
      let w ← makeAll caller hook.calls (w.fire d hook)
      match hook.rejection with
      | some reason => return (.error (.rejected reason), w)
      | none => w.commit caller d e

/-- Write to a document, with reactions nested at most `depth` deep. -/
def write : Nat → Writer
  | 0 => writeVia fun _ _ => .error .endless
  | depth + 1 => writeVia (perform (write depth))

/-- How many reactions are still to come. -/
def pendingReactions (w : World) : Nat :=
  (w.surfaces.slots.countP fun s => s.hook.isSome) + w.scripts.slots.flatten.length

/-- Make a call. -/
def run (w : World) (c : Call) : Except Fault (Outcome × World) :=
  perform (write w.pendingReactions) c w

/-- Make calls one after another. -/
def runAll (w : World) : List Call → Except Fault World
  | [] => .ok w
  | c :: rest => do
      let (_, w) ← w.run c
      w.runAll rest

/-- Pump every party once; the result is how many arrivals were handled.  A
closed endpoint counts as none. -/
def pumpRound (w : World) : List Nat → Except Fault (Nat × World)
  | [] => .ok (0, w)
  | p :: rest => do
      match ← w.run (.pump p) with
      | (.pumped (.ok n), w) => do
          let (more, w) ← w.pumpRound rest
          return (n + more, w)
      | (_, w) => w.pumpRound rest

/-- Rounds of pumping, at most `fuel`, after `handled` arrivals. -/
def pumpRounds (parties : List Nat) (handled : Nat) :
    Nat → World → Except Fault (Nat × World)
  | 0, _ => .error .endless
  | fuel + 1, w => do
      let (n, w) ← w.pumpRound parties
      if n = 0 then return (handled, w) else pumpRounds parties (handled + n) fuel w

/-- Pump the parties until a round handles nothing; the result is how many
arrivals were handled. -/
def pumpAll (w : World) (parties : List Nat) : Except Fault (Nat × World) :=
  pumpRounds parties 0 Word.count w

end World

end PairEdit.Session
