import PairEdit.Session.Error
import PairEdit.Strategy

/-!
# Phases of a session

A party is idle, or has an offer waiting for an answer, or shares a document.
This module says what the state of each phase is and what an update does to
it; what a party then has to do about it is for `PairEdit.Session.Party`.
-/

namespace PairEdit.Session

/-- The two peers of a session, and which of them is this one. -/
structure Participants where
  our : PeerId
  initiator : PeerId
  receiver : PeerId
deriving DecidableEq, Repr

namespace Participants

/-- Which side this party is. -/
def role (p : Participants) : Role :=
  if p.our = p.initiator then .initiator else .receiver

/-- The peer on the other side. -/
def other (p : Participants) : PeerId :=
  match p.role with
  | .initiator => p.receiver
  | .receiver => p.initiator

end Participants

/-- An offer that waits for an answer. -/
structure Offered where
  participants : Participants
  senderName : Text
  fileName : Text
  /-- The offered text, with the updates that came since. -/
  buffer : Text
  /-- How many updates that were. -/
  buffered : Nat
deriving DecidableEq, Repr

/-- A session in which edits are captured and applied. -/
structure Live where
  participants : Participants
  /-- Tells this session from all others of the same party. -/
  epoch : Nat
  /-- The number of the shared document. -/
  document : Nat
  /-- The number of the listener that captures local edits; there is none while
  a remote edit is being written. -/
  capture : Option Nat
  strategy : Strategy
  /-- Whether the peer is known to have accepted. -/
  confirmed : Bool
deriving DecidableEq, Repr

/-- The phase a party is in. -/
inductive Phase where
  | idle
  | offered (offer : Offered)
  | live (session : Live)
deriving DecidableEq, Repr, Inhabited

/-- What the host is told about the phase. -/
inductive Status where
  | idle
  /-- An offer was made or received, and not yet answered. -/
  | pending (role : Role)
  | sharing
deriving DecidableEq, Repr

/-- An offer as the host is shown it. -/
structure Offer where
  sender : PeerId
  senderName : Text
  fileName : Text
  documentText : Text
deriving DecidableEq, Repr

/-- An offer as the host is shown it. -/
def Offered.toOffer (o : Offered) : Offer :=
  ⟨o.participants.initiator, o.senderName, o.fileName, o.buffer⟩

/-- Apply an update to the offered text.  The text may outgrow the limit, and
then the state is what it would be without one. -/
def Offered.absorb? (limits : Limits) (o : Offered) (e : Edit) :
    Option (Except ShareError Unit × Offered) :=
  match e.apply o.buffer with
  | .error reason => some (.error (.invalidOperation reason), o)
  | .ok text => do
      let buffered ← Word.fit? (o.buffered + 1)
      let o := { o with buffer := text, buffered := buffered }
      if limits.documentChars < text.length then
        return (.error (.sync (.invalidMessage
          (.pendingTooLarge text.length limits.documentChars))), o)
      else return (.ok (), o)

namespace Offered

variable {o o' : Offered} {e : Edit} {text : Text} {limits : Limits}

/-- An edit that fits is applied and counted, also when the text has become too long. -/
theorem absorb?_of_apply (limits : Limits) (happly : e.apply o.buffer = .ok text)
    (hcount : o.buffered + 1 ≤ Word.max) :
    o.absorb? limits e = some
      (if limits.documentChars < text.length then
        .error (.sync (.invalidMessage (.pendingTooLarge text.length limits.documentChars)))
      else .ok (), { o with buffer := text, buffered := o.buffered + 1 }) := by
  rw [absorb?, happly]
  simp only [Word.fit?_of_le hcount, bind, Option.bind]
  split <;> rfl

theorem absorb?_of_full (limits : Limits) (happly : e.apply o.buffer = .ok text)
    (hcount : Word.max ≤ o.buffered) : o.absorb? limits e = none := by
  rw [absorb?, happly]
  simp [Word.fit?, Nat.not_le_of_lt (Nat.lt_succ_of_le hcount)]

/-- Either the edit does not fit, and the offer stays as it is, or the edit is applied and
counted. -/
theorem absorb?_cases {result : Except ShareError Unit}
    (h : o.absorb? limits e = some (result, o')) :
    (∃ reason, result = .error (.invalidOperation reason) ∧ o' = o) ∨
      ∃ text, e.apply o.buffer = .ok text ∧ o.buffered + 1 ≤ Word.max ∧
        o' = { o with buffer := text, buffered := o.buffered + 1 } ∧
        result = if limits.documentChars < text.length then
          .error (.sync (.invalidMessage (.pendingTooLarge text.length limits.documentChars)))
        else .ok () := by
  cases happly : e.apply o.buffer with
  | error reason =>
      rw [absorb?, happly] at h
      cases h
      exact .inl ⟨reason, rfl, rfl⟩
  | ok text =>
      rcases Nat.lt_or_ge o.buffered Word.max with hcount | hcount
      · rw [absorb?_of_apply limits happly hcount] at h
        cases h
        exact .inr ⟨text, rfl, hcount, rfl, rfl⟩
      · rw [absorb?_of_full limits happly hcount] at h
        cases h

end Offered

/-- Check an update against a document of `len` characters, then transform it.
The result is the edit to apply, or why there is none. -/
def Live.admit? (l : Live) (u : Update) (len : Nat) : Option (Except EditError Edit × Live) := do
  match ← l.strategy.check? u len with
  | .error reason => return (.error reason, l)
  | .ok () =>
      let (adjusted, strategy) ← l.strategy.receive? u
      let l := { l with strategy := strategy }
      match adjusted.checkBounds len with
      | .error reason => return (.error reason, l)
      | .ok () => return (.ok adjusted, l)

/-- What an update calls for. -/
inductive Incoming where
  /-- Nothing: there is no session. -/
  | ignored
  /-- Nothing more: it was applied to the offered text. -/
  | buffered
  /-- The sender has no part in the session, which goes on. -/
  | outsider
  /-- The offer has to end. -/
  | endOffer (reason : ShareError)
  /-- The session has to end. -/
  | endSession (epoch : Nat) (reason : EditError)
  /-- The edit has to be written, with the capture detached. -/
  | write (epoch document : Nat) (edit : Edit) (capture : Option Nat) (first : Bool)
deriving DecidableEq, Repr

namespace Phase

/-- The peer on the other side of the session or offer. -/
def other : Phase → Option PeerId
  | idle => none
  | offered o => some o.participants.initiator
  | live l => some l.participants.other

/-- The identities of the session or offer. -/
def participants : Phase → Option Participants
  | idle => none
  | offered o => some o.participants
  | live l => some l.participants

/-- What the host is told about the phase. -/
def status : Phase → Status
  | idle => .idle
  | offered _ => .pending .receiver
  | live l => if l.confirmed then .sharing else .pending .initiator

/-- The live session, if it is the one with the given epoch. -/
def isEpoch (epoch : Nat) : Phase → Bool
  | live l => l.epoch == epoch
  | _ => false

/-- Whether edits are captured and applied. -/
def isSharing : Phase → Bool
  | live _ => true
  | _ => false

/-- The peer of the live session. -/
def partner : Phase → Option PeerId
  | live l => some l.participants.other
  | _ => none

/-- Which side this party is, in the session or the offer. -/
def role (phase : Phase) : Option Role := phase.participants.map Participants.role

/-- Whether this party made the offer. -/
def isInitiator (phase : Phase) : Bool := phase.role == some .initiator

/-- The offer that waits for an answer. -/
def offer : Phase → Option Offer
  | offered o => some o.toOffer
  | _ => none

/-- The number of the shared document. -/
def document : Phase → Option Nat
  | live l => some l.document
  | _ => none

/-- The local edits the peer has not acknowledged, oldest first. -/
def outstanding : Phase → List Edit
  | live l => l.strategy.outstanding
  | _ => []

/-- Take in an update.  `len` is the length of the shared document. -/
def receive? (limits : Limits) (sender : PeerId) (u : Update) (len : Nat) :
    Phase → Option (Incoming × Phase)
  | idle => some (.ignored, idle)
  | offered o =>
      if o.participants.initiator ≠ sender then some (.outsider, offered o)
      else do
        match ← o.absorb? limits u.edit with
        | (.ok (), o) => return (.buffered, offered o)
        | (.error reason, o) => return (.endOffer reason, offered o)
  | live l =>
      if l.participants.other ≠ sender then some (.outsider, live l)
      else do
        match ← l.admit? u len with
        | (.error reason, l) => return (.endSession l.epoch reason, live l)
        | (.ok edit, l) =>
            return (.write l.epoch l.document edit l.capture (!l.confirmed),
              live { l with confirmed := true, capture := none })

end Phase

end PairEdit.Session
