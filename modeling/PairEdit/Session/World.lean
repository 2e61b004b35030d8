import PairEdit.Document
import PairEdit.Network
import PairEdit.Session.Call
import PairEdit.Session.Event

/-!
# The world of the parties

Parties share documents over one network.  Everything that lasts is here: the
endpoints with their queues, the documents with their listeners, and for each
party its phase and the events its host has not read.

A listener of a document is either the capture of a session, which sends local
edits to the peer, or belongs to the host.  The host's listeners, and the hooks
of documents, react with calls of their own.
-/

namespace PairEdit.Session

/-- Who listens to a document. -/
inductive Subscriber where
  /-- A party, for the session with the given epoch. -/
  | capture (party epoch : Nat)
  /-- The host, with the number of what it does. -/
  | host (script : Nat)
deriving DecidableEq, Repr

/-- What a document does before its next edit, and whether it then refuses. -/
structure Hook where
  calls : List Call
  rejection : Option String
deriving Repr

/-- A document, and what it does before its next edit. -/
structure Surface where
  document : Document Subscriber
  hook : Option Hook
  /-- Whether the host has let go of it. -/
  released : Bool
deriving Repr, Inhabited

/-- What a party was set up with. -/
structure Config where
  limits : Limits
  strategy : Strategy.Kind
  eventCapacity : Nat
deriving DecidableEq, Repr

/-- The settings of a party that chooses none. -/
def Config.usual : Config := ⟨.usual, .backlog, 64⟩

instance : Inhabited Config := ⟨.usual⟩

/-- Whether a queue of events as long as asked for can be made. -/
def Config.hasRoom (c : Config) : Bool := queueFits c.eventCapacity

/-- One side of the sessions. -/
structure Party where
  /-- The number of its endpoint. -/
  endpoint : Nat
  config : Config
  phase : Phase
  /-- How many sessions there were. -/
  epochs : Nat
  /-- Whether an update or an accepted text is being written. -/
  writing : Bool
  /-- What the host has not read yet, oldest first. -/
  events : List Event
  /-- Whether the host has let go of it. -/
  released : Bool
deriving Repr, Inhabited

/-- All that lasts. -/
structure World where
  network : Network
  surfaces : Table Surface
  parties : Table Party
  /-- What the host's listeners do in each of the calls to come. -/
  scripts : Table (List (List Call))
  /-- The calls of hooks that have fired: those still to come, and the one that
  is being made. -/
  underway : List Call
  /-- What came of the calls that hooks and listeners made. -/
  log : List Outcome
deriving Repr

namespace World

/-- No peers, parties or documents. -/
def empty : World := ⟨.empty, .empty, .empty, .empty, [], []⟩

/-- The party with a number. -/
def party (w : World) (p : Nat) : Party := w.parties.get p

/-- The phase of a party. -/
def phase (w : World) (p : Nat) : Phase := (w.party p).phase

/-- The limits a party keeps to. -/
def limits (w : World) (p : Nat) : Limits := (w.party p).config.limits

/-- The identity of a party: that of its endpoint. -/
def identity (w : World) (p : Nat) : PeerId := (w.network.endpoint (w.party p).endpoint).peer

/-- The document with a number. -/
def document (w : World) (d : Nat) : Document Subscriber := (w.surfaces.get d).document

/-- Change a party. -/
def modifyParty (w : World) (p : Nat) (f : Party → Party) : World :=
  { w with parties := w.parties.modify p f }

/-- Put a party into a phase. -/
def setPhase (w : World) (p : Nat) (phase : Phase) : World :=
  w.modifyParty p fun party => { party with phase := phase }

/-- Replace a document. -/
def setDocument (w : World) (d : Nat) (document : Document Subscriber) : World :=
  { w with surfaces := w.surfaces.modify d fun s => { s with document := document } }

/-- Where a document is. -/
def site (d : Nat) : Document.Site World Subscriber where
  get w := w.document d
  put document w := w.setDocument d document

/-- Tell the host of a party something. -/
def emit (w : World) (p : Nat) (event : Event) : World :=
  w.modifyParty p fun party => { party with events := party.events ++ [event] }

/-- Send bytes from the endpoint of a party. -/
def transmit (w : World) (p : Nat) (peer : PeerId) (payload : Bytes) :
    Except SyncError Unit × World :=
  let (result, network) := w.network.send (w.party p).endpoint peer payload
  (result, { w with network := network })

/-- Send a message, when it keeps to the limits. -/
def send (w : World) (p : Nat) (peer : PeerId) (message : Message) :
    Except ShareError Unit × World :=
  match message.encode (w.limits p) with
  | .error reason => (.error (.sync reason), w)
  | .ok payload =>
      match w.transmit p peer payload with
      | (.error reason, w) => (.error (.sync reason), w)
      | (.ok (), w) => (.ok (), w)

/-- Remove a listener of a document. -/
def unlisten (w : World) (d id : Nat) : World :=
  w.setDocument d ((w.document d).unlisten id).2

/-- Remove the listener that a phase captures with, if it has one. -/
def detach (w : World) : Phase → World
  | .live l =>
      match l.capture with
      | some id => w.unlisten l.document id
      | none => w
  | _ => w

/-- Put a party into idleness, where it captures nothing. -/
def vacate (w : World) (p : Nat) : World :=
  (w.setPhase p .idle).detach (w.phase p)

/-- Listen to the document of a session for local edits; the result is the
number of the listener. -/
def attach (w : World) (p epoch d : Nat) : Nat × World :=
  let (id, document) := (w.document d).listen (.capture p epoch)
  (id, w.setDocument d document)

/-- Capture again after a write, unless the session moved on meanwhile. -/
def resume (w : World) (p epoch : Nat) : World :=
  match w.phase p with
  | .live l =>
      if l.epoch = epoch ∧ l.capture = none then
        let (id, w) := w.attach p epoch l.document
        w.setPhase p (.live { l with capture := some id })
      else w
  | _ => w

/-- Put the lock of a party that writes on or off. -/
def setWriting (w : World) (p : Nat) (writing : Bool) : World :=
  w.modifyParty p fun party => { party with writing := writing }

/-- Count one more session. -/
def nextEpoch (w : World) (p : Nat) : Nat × World :=
  let epoch := (w.party p).epochs + 1
  (epoch, w.modifyParty p fun party => { party with epochs := epoch })

/-! ## Setting up -/

/-- Make an endpoint for a peer. -/
def addEndpoint (w : World) (peer : PeerId) : Nat × World :=
  let (id, network) := w.network.create peer
  (id, { w with network := network })

/-- Make a party on an endpoint of its own.  Its queue of events is taken to
have room (`Config.hasRoom`). -/
def addParty (w : World) (peer : PeerId) (config : Config) : Nat × World :=
  let (endpoint, w) := w.addEndpoint peer
  let (p, parties) := w.parties.push ⟨endpoint, config, .idle, 0, false, [], false⟩
  (p, { w with parties := parties })

/-- Make a document. -/
def addDocument (w : World) (text : Text) : Nat × World :=
  let (d, surfaces) := w.surfaces.push ⟨.ofText text, none, false⟩
  (d, { w with surfaces := surfaces })

/-- Replace the hook of a document. -/
def setHook (w : World) (d : Nat) (hook : Option Hook) : World :=
  { w with surfaces := w.surfaces.modify d fun s => { s with hook := hook } }

/-- Add a listener of the host to a document; the result is its number. -/
def listen (w : World) (d : Nat) (script : List (List Call)) : Nat × World :=
  let (i, scripts) := w.scripts.push script
  let (id, document) := (w.document d).listen (.host i)
  (id, { w with scripts := scripts }.setDocument d document)

end World

end PairEdit.Session
