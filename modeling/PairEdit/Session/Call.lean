import PairEdit.Session.Error

/-!
# Calls

What a host may do, as values: hooks and listeners are scripts of calls, and a
run of the parties is a list of them.
-/

namespace PairEdit.Session

/-- What a host may do. -/
inductive Call where
  /-- Edit a document as a user does. -/
  | edit (document : Nat) (edit : Edit)
  /-- Take a peer off the network. -/
  | disconnect (peer : PeerId)
  /-- Offer a document; without a name the receiver is shown the short form of
  the identity. -/
  | start (party : Nat) (our : PeerId) (name : Option Text) (other : PeerId)
      (fileName : Text) (document : Nat)
  /-- Accept the offer into a document. -/
  | accept (party document : Nat)
  /-- Refuse the offer. -/
  | decline (party : Nat)
  /-- End the session, or refuse the offer. -/
  | stop (party : Nat)
  /-- Handle all that has arrived. -/
  | pump (party : Nat)
  /-- Handle the oldest arrival. -/
  | handleNext (party : Nat)
  | handleMessage (party : Nat) (sender : PeerId) (payload : Bytes)
  | handleDisconnect (party : Nat) (peer : PeerId)
  /-- Handle what arrives until the endpoint is closed, as far as it goes. -/
  | serve (party : Nat)
deriving DecidableEq, Repr

/-- What a call gives. -/
inductive Outcome where
  | done
  | edited (result : Except DocumentError Unit)
  | shared (result : Except ShareError Unit)
  | pumped (result : Except ShareError Nat)
  /-- The arrival, if there was one, and how handling it went. -/
  | next (result : Except SyncError (Option (Except ShareError Unit)))
  /-- Whether the endpoint is closed. -/
  | served (closed : Bool)
deriving Repr

namespace Call

/-- The party a call is made to. -/
def party? : Call → Option Nat
  | start p .. => some p
  | accept p _ => some p
  | decline p => some p
  | stop p => some p
  | pump p => some p
  | handleNext p => some p
  | handleMessage p .. => some p
  | handleDisconnect p _ => some p
  | serve p => some p
  | edit .. => none
  | disconnect _ => none

/-- The document a call is about. -/
def document? : Call → Option Nat
  | edit d _ => some d
  | start _ _ _ _ _ d => some d
  | accept _ d => some d
  | _ => none

end Call

end PairEdit.Session
