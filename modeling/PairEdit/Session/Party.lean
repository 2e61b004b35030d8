import PairEdit.Session.Release

/-!
# What a party does

The calls a host makes to a party, and what the party does with what arrives.
None of the functions here writes to a document by itself: those that have to
take a `Writer`, and `PairEdit.Session.Run` says what a write leads to.
-/

namespace PairEdit.Session

/-- Carries out an edit on the document with a number. -/
abbrev Writer := Nat → Edit → World → Except Fault (Except DocumentError Unit × World)

namespace World

/-! ## Ending -/

/-- End the live session with the given epoch and tell the peer. -/
def endSession (w : World) (p epoch : Nat) (reason : EndReason) : World :=
  match w.phase p with
  | .live l =>
      if l.epoch = epoch then
        let other := l.participants.other
        let w := (w.leave p).emit p (.ended other reason)
        (w.send p other .stop).2
      else w
  | _ => w

/-- Drop the offer from `initiator` and tell that peer. -/
def endOffer (w : World) (p : Nat) (initiator : PeerId) (reason : EndReason) : World :=
  match w.phase p with
  | .offered o =>
      if o.participants.initiator = initiator then
        let w := (w.leave p).emit p (.ended initiator reason)
        (w.send p initiator .stop).2
      else w
  | _ => w

/-! ## Calls of the host -/

/-- Offer a document.  From now on local edits are captured and sent, before
the receiver has answered. -/
def start (w : World) (p : Nat) (our : PeerId) (name : Option Text) (other : PeerId)
    (fileName : Text) (d : Nat) : Except ShareError Unit × World :=
  if our = other then (.error (.invalidArgument .shareWithSelf), w)
  else if our ≠ w.identity p then
    (.error (.invalidArgument (.foreignIdentity our (w.identity p))), w)
  else match w.phase p with
    | .idle =>
        let offer : Start :=
          ⟨our, name.getD our.short, other, (w.document d).text, fileName⟩
        let (epoch, w) := w.nextEpoch p
        let (capture, w) := w.attach p epoch d
        let strategy := Strategy.start (w.party p).config.strategy .initiator
        let w := w.setPhase p
          (.live ⟨⟨our, our, other⟩, epoch, d, some capture, strategy, false⟩)
        match w.send p other (.start offer) with
        | (.error reason, w) =>
            (.error reason, if (w.phase p).isEpoch epoch then w.leave p else w)
        | (.ok (), w) => (.ok (), w.emit p (.started other .initiator))
    | _ => (.error .busy, w)

/-- End the session and tell the peer, or refuse the offer.  An idle party does
nothing. -/
def stop (w : World) (p : Nat) : Except ShareError Unit × World :=
  match w.phase p with
  | .idle => (.ok (), w)
  | .offered o =>
      let other := o.participants.initiator
      ((w.leave p).emit p (.ended other .declined)).send p other .stop
  | .live l =>
      let other := l.participants.other
      ((w.leave p).emit p (.ended other .localStop)).send p other .stop

/-- Refuse the offer. -/
def decline (w : World) (p : Nat) : Except ShareError Unit × World :=
  match w.phase p with
  | .offered o =>
      let other := o.participants.initiator
      ((w.leave p).emit p (.ended other .declined)).send p other .stop
  | _ => (.error .noPendingOffer, w)

/-- Make a session of the offer, whose text is still to be written; the result
is its epoch. -/
def enter (w : World) (p d : Nat) (o : Offered) : Except Fault (Nat × World) := do
  let (epoch, w) := w.nextEpoch p
  let fresh := Strategy.start (w.party p).config.strategy .receiver
  let strategy ← orOverflow (fresh.skip? o.buffered)
  return (epoch, w.setPhase p (.live ⟨o.participants, epoch, d, none, strategy, true⟩))

/-- Accept the offer, writing the offered text into a document.  Local edits
are captured once it is in. -/
def accept (write : Writer) (w : World) (p d : Nat) :
    Except Fault (Except ShareError Unit × World) :=
  if (w.party p).writing then .error .deadlock
  else match w.phase p with
    | .offered o => do
        let other := o.participants.initiator
        let (epoch, w) ← (w.setWriting p true).enter p d o
        let (written, w) ← write d ((w.document d).overwriting o.buffer) w
        let w := w.resume p epoch
        match written with
        | .error reason =>
            let w := w.endSession p epoch .invalidOperation
            return (.error (.document reason), w.setWriting p false)
        | .ok () =>
            let w := w.emit p (.started other .receiver)
            return (.ok (), w.setWriting p false)
    | _ => .ok (.error .noPendingOffer, w)

/-! ## Arrivals -/

/-- Take in an offer.  A party that is not idle refuses it. -/
def handleStart (w : World) (p : Nat) (sender : PeerId) (offer : Start) :
    Except ShareError Unit × World :=
  if offer.senderId ≠ sender then
    (.error (.protocol sender (.claimsSender offer.senderId)), w)
  else if offer.receiverId ≠ w.identity p then
    (.error (.protocol sender (.addressedTo offer.receiverId)), w)
  else match w.phase p with
    | .idle =>
        let participants : Participants := ⟨offer.receiverId, offer.senderId, offer.receiverId⟩
        let o : Offered := ⟨participants, offer.senderName, offer.fileName, offer.documentText, 0⟩
        (.ok (), (w.setPhase p (.offered o)).emit p (.startRequested o.toOffer))
    | _ => (w.emit p (.refused sender)).send p sender .stop

/-- Write an accepted edit of the peer, with capture resumed afterwards. -/
def writeRemote (write : Writer) (w : World) (p : Nat) (sender : PeerId) (epoch d : Nat)
    (e : Edit) (capture : Option Nat) (first : Bool) :
    Except Fault (Except ShareError Unit × World) := do
  let w := match capture with
    | some id => w.unlisten d id
    | none => w
  let (written, w) ← write d e (w.setWriting p true)
  let w := w.resume p epoch
  match written with
  | .error reason =>
      let w := w.endSession p epoch .invalidOperation
      return (.error (.document reason), w.setWriting p false)
  | .ok () =>
      let w := if first then w.emit p (.confirmed sender) else w
      return (.ok (), w.setWriting p false)

/-- Take in an update.  Updates that arrive before the offer is accepted are
applied to the offered text; after that they are transformed and written. -/
def handleUpdate (write : Writer) (w : World) (p : Nat) (sender : PeerId) (u : Update) :
    Except Fault (Except ShareError Unit × World) :=
  if (w.party p).writing then .error .deadlock
  else do
    let len := match w.phase p with
      | .live l => (w.document l.document).length
      | _ => 0
    let (incoming, phase) ← orOverflow ((w.phase p).receive? (w.limits p) sender u len)
    let w := w.setPhase p phase
    match incoming with
    | .ignored => return (.ok (), w)
    | .buffered => return (.ok (), w)
    | .outsider => return (.error (.protocol sender .outsider), w)
    | .endOffer reason =>
        return (.error reason, w.endOffer p sender .invalidOperation)
    | .endSession epoch reason =>
        return (.error (.invalidOperation reason), w.endSession p epoch .invalidOperation)
    | .write epoch d e capture first =>
        w.writeRemote write p sender epoch d e capture first

/-- The peer has stopped. -/
def handleStop (w : World) (p : Nat) (sender : PeerId) : World :=
  if (w.phase p).other = some sender then
    (w.leave p).emit p (.ended sender .peerStopped)
  else w

/-- The peer is gone.  A live session still says that it stops. -/
def handleDisconnect (w : World) (p : Nat) (peer : PeerId) : World :=
  if (w.phase p).other = some peer then
    let wasLive := (w.phase p).isSharing
    let w := (w.leave p).emit p (.ended peer .disconnected)
    if wasLive then (w.send p peer .stop).2 else w
  else w

/-- Take in a payload. -/
def handleMessage (write : Writer) (w : World) (p : Nat) (sender : PeerId) (payload : Bytes) :
    Except Fault (Except ShareError Unit × World) :=
  match Message.decode (w.limits p) payload with
  | .error reason => .ok (.error (.sync reason), w)
  | .ok (.start offer) => .ok (w.handleStart p sender offer)
  | .ok (.update u) => w.handleUpdate write p sender u
  | .ok .stop => .ok (.ok (), w.handleStop p sender)

/-- Take in what arrived. -/
def handleArrival (write : Writer) (w : World) (p : Nat) :
    Arrival → Except Fault (Except ShareError Unit × World)
  | .message sender payload => w.handleMessage write p sender payload
  | .disconnected peer => .ok (.ok (), w.handleDisconnect p peer)

/-- Take the oldest arrival off the queue of a party. -/
def receive (w : World) (p : Nat) : Except SyncError (Option Arrival) × World :=
  let (result, network) := w.network.receive (w.party p).endpoint
  (result, { w with network := network })

/-- Handle the oldest arrival. -/
def handleNext (write : Writer) (w : World) (p : Nat) :
    Except Fault (Except SyncError (Option (Except ShareError Unit)) × World) :=
  match w.receive p with
  | (.error reason, w) => .ok (.error reason, w)
  | (.ok none, w) => .ok (.ok none, w)
  | (.ok (some arrival), w) => do
      let (result, w) ← w.handleArrival write p arrival
      return (.ok (some result), w)

/-- Handle what has arrived, at most `fuel` arrivals, after `handled` others. -/
def pumpFrom (write : Writer) (p : Nat) (handled : Nat) :
    Nat → World → Except Fault (Except ShareError Nat × World)
  | 0, _ => .error .overflow
  | fuel + 1, w => do
      match ← w.handleNext write p with
      | (.error reason, w) => return (.error (.sync reason), w)
      | (.ok none, w) => return (.ok handled, w)
      | (.ok (some _), w) => pumpFrom write p (handled + 1) fuel w

/-- Handle all that has arrived; the result is how many arrivals that were.
What goes wrong with one of them does not keep the next from being handled. -/
def pump (write : Writer) (w : World) (p : Nat) :
    Except Fault (Except ShareError Nat × World) :=
  pumpFrom write p 0 Word.count w

/-- Handle what has arrived, at most `fuel` arrivals.  When the endpoint is
closed the peer of the session counts as gone. -/
def serveWithin (write : Writer) (p : Nat) : Nat → World → Except Fault (Bool × World)
  | 0, _ => .error .endless
  | fuel + 1, w => do
      match ← w.handleNext write p with
      | (.error _, w) =>
          match (w.phase p).other with
          | some other => return (true, w.handleDisconnect p other)
          | none => return (true, w)
      | (.ok none, w) => return (false, w)
      | (.ok (some _), w) => serveWithin write p fuel w

/-- Handle what has arrived, and learn whether more may come. -/
def serve (write : Writer) (w : World) (p : Nat) : Except Fault (Bool × World) :=
  serveWithin write p Word.count w

/-! ## Captured edits -/

/-- A local edit on the document of the session with the given epoch: tag it
and send it.  An edit that changes nothing is not sent. -/
def capture (w : World) (p epoch : Nat) (e : Edit) : Except Fault World :=
  match w.phase p with
  | .live l =>
      if l.epoch ≠ epoch ∨ e.isNoop then .ok w
      else do
        let (u, strategy) ← orOverflow (l.strategy.register? e)
        let other := l.participants.other
        let w := w.setPhase p (.live { l with strategy := strategy })
        match w.send p other (.update u) with
        | (.error reason, w) => return w.emit p (.sendFailed other reason)
        | (.ok (), w) => return w
  | _ => .ok w

end World

end PairEdit.Session
