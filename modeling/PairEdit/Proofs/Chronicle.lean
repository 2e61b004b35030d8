import PairEdit.Proofs.Deliveries

/-!
# Runs with notes

A `Chronicle` is a world together with notes on what the parties say to each other: which
session each of them is in, which edits of the peer it has applied there, which of its own
it has sent there, and a postmark for every message in its queue.  The notes are taken by
looking at the world before and after each call, and nothing in the world depends on them.
A run is told in the ledger of sessions as acts of the one and of the other party.
-/

namespace PairEdit.Session

open Function

/-- The payloads in the queue of a party, oldest first. -/
def World.inbox (w : World) (p : Fin 2) : List Bytes :=
  (w.network.endpoint p).queue.filterMap fun
    | .message _ payload => some payload
    | .disconnected _ => none

/-- What is noted down about a party. -/
structure Notes where
  /-- The session or the offer that it has. -/
  session : Option SessionId
  /-- The edits of the peer that it has applied there, by the numbers they were sent with. -/
  applied : List Nat
  /-- Its own edits that it has sent there and the peer can read, by their numbers. -/
  posted : List Nat
  /-- The postmarks of the messages in its queue, oldest first. -/
  marks : List Postmark
deriving DecidableEq, Repr

/-- A world, and what was noted down on the way to it. -/
structure Chronicle where
  world : World
  notes : Fin 2 → Notes

/-- What a payload says to a party with given limits. -/
def readLetter? (limits : Limits) (payload : Bytes) (mark : Postmark) : Option Letter :=
  match Message.decode limits payload with
  | .ok m => some ⟨m, mark⟩
  | .error _ => none

/-- The session of a party that goes from one phase to another: it keeps the one it had, or
has one of its own, or that of the offer it took. -/
def follow (p : Fin 2) (had : Option SessionId) (before after : Phase) (handled : Option Letter) :
    Option SessionId :=
  match after with
  | .idle => none
  | .offered _ => if before = .idle then handled.map fun l => l.mark.session else had
  | .live l => if before = .idle then some ⟨p, l.epoch⟩ else had

/-- The session that a party sends messages about: the one whose offer it refuses, or the
one it has, or the one it had. -/
def concern (had now : Option SessionId) (handled : Option Letter) : Option SessionId :=
  match handled with
  | some ⟨.start _, mark⟩ => some mark.session
  | _ => now.or had

/-- The edits of the peer that a party has applied in its session, once it has handled a
message. -/
def absorbed (applied : List Nat) (now : Option SessionId) (handled : Option Letter) : List Nat :=
  match now, handled with
  | none, _ => []
  | some _, some ⟨.update u, _⟩ => applied ++ [u.sent]
  | some _, _ => applied

/-- The edits among what is sent to a party with given limits, as far as it can read them. -/
def editsIn (limits : Limits) (payloads : List Bytes) : List Nat :=
  payloads.filterMap fun payload =>
    match Message.decode limits payload with
    | .ok (.update u) => some u.sent
    | _ => none

namespace Chronicle

/-- What a party can read of what is in its queue. -/
def mail (n : Chronicle) (p : Fin 2) : List Letter :=
  ((n.world.inbox p).zip (n.notes p).marks).filterMap fun x =>
    readLetter? (n.world.limits p) x.1 x.2

/-- The oldest message in the queue of a party, if it can be read. -/
def oldest? (n : Chronicle) (p : Fin 2) : Option Letter :=
  ((n.world.inbox p).zip (n.notes p).marks).head?.bind fun x =>
    readLetter? (n.world.limits p) x.1 x.2

section Taking

variable (n : Chronicle) (c : Call) (w' : World) (p : Fin 2)

/-- How many messages the call takes off the queue of a party. -/
def takes : Nat := if c = .handleNext p then 1 else 0

/-- The message that a party takes, if it can read it. -/
def handled? : Option Letter := if c = .handleNext p then n.oldest? p else none

/-- What the call puts into the queue of a party. -/
def arrivals : List Bytes := (w'.inbox p).drop ((n.world.inbox p).length - takes c p)

/-- The session that a party has after a call. -/
def sessionAfter : Option SessionId :=
  follow p (n.notes p).session (n.world.phase p) (w'.phase p) (n.handled? c p)

/-- The session that a party sends messages about in a call. -/
def sessionAbout : Option SessionId :=
  concern (n.notes p).session (n.sessionAfter c w' p) (n.handled? c p)

/-- The edits of the peer that a party has applied in its session, after a call. -/
def appliedAfter : List Nat :=
  absorbed (n.notes p).applied (n.sessionAfter c w' p) (n.handled? c p)

/-- The own edits that a party has sent in its session and the peer can read, after a
call. -/
def postedAfter : List Nat :=
  match n.sessionAfter c w' p with
  | none => []
  | some _ => (n.notes p).posted ++ editsIn (n.world.limits p.rev) (n.arrivals c w' p.rev)

/-- The postmark of what a party sends in a call. -/
def postmark? : Option Postmark :=
  (n.sessionAbout c w' p).map fun s =>
    ⟨s, (w'.phase p).document, n.world.written c, n.appliedAfter c w' p⟩

/-- The notes on a party after a call. -/
def notesAfter : Notes where
  session := n.sessionAfter c w' p
  applied := n.appliedAfter c w' p
  posted := n.postedAfter c w' p
  marks := (n.notes p).marks.drop (takes c p) ++ (n.postmark? c w' p.rev).toList.flatMap
    fun mark => List.replicate (n.arrivals c w' p).length mark

/-- The chronicle after a call. -/
def next : Chronicle := ⟨w', n.notesAfter c w'⟩

end Taking

/-- A call in which a party begins a session of its own. -/
def Starts (n : Chronicle) (w' : World) (p : Fin 2) : Prop :=
  n.world.phase p = .idle ∧ (w'.phase p).document ≠ none

instance (n : Chronicle) (w' : World) (p : Fin 2) : Decidable (n.Starts w' p) :=
  inferInstanceAs (Decidable (_ ∧ _))

/-- The sessions of the parties, and what they can read of what is on the way. -/
def ledger (n : Chronicle) : Ledger where
  session p := (n.notes p).session
  mail := n.mail
  epochs p := (n.world.party p).epochs

/-- The chronicle of two idle parties with settings of their own, among documents. -/
def opening (ids : Fin 2 → PeerId) (configs : Fin 2 → Config) (texts : List Text) : Chronicle where
  world :=
    let (_, w) := World.empty.addParty (ids 0) (configs 0)
    let (_, w) := w.addParty (ids 1) (configs 1)
    texts.foldl (fun w text => (w.addDocument text).2) w
  notes _ := ⟨none, [], [], []⟩

theorem mail_opening (ids : Fin 2 → PeerId) (configs : Fin 2 → Config) (texts : List Text)
    (p : Fin 2) : (opening ids configs texts).mail p = [] := by
  show (List.zip _ ([] : List Postmark)).filterMap _ = []
  rw [List.zip_nil_right, List.filterMap_nil]

/-- What two parties may come to, by calls that are permitted. -/
inductive Reachable (ids : Fin 2 → PeerId) (configs : Fin 2 → Config) (texts : List Text)
    (Permitted : Chronicle → Call → World → Prop) : Chronicle → Prop
  | init : Reachable ids configs texts Permitted (opening ids configs texts)
  | step {n : Chronicle} {c : Call} {outcome : Outcome} {w' : World} :
      Reachable ids configs texts Permitted n → Interaction c →
      n.world.run c = .ok (outcome, w') → Permitted n c w' →
      Reachable ids configs texts Permitted (n.next c w')

section Runs

variable (Permitted : Chronicle → Call → World → Prop)
variable [∀ n c w', Decidable (Permitted n c w')]

/-- What calls in a row lead to, if all of them are permitted and none is given up. -/
def run? (n : Chronicle) : List Call → Option Chronicle
  | [] => some n
  | c :: calls =>
      match n.world.run c with
      | .ok (_, w') => if Permitted n c w' then (n.next c w').run? calls else none
      | .error _ => none

variable {Permitted} {ids : Fin 2 → PeerId} {configs : Fin 2 → Config} {texts : List Text}
variable {n n' : Chronicle} {calls : List Call}

theorem Reachable.run? (h : Reachable ids configs texts Permitted n)
    (hcalls : ∀ c ∈ calls, Interaction c) (hrun : n.run? Permitted calls = some n') :
    Reachable ids configs texts Permitted n' := by
  induction calls generalizing n with
  | nil =>
      cases hrun
      exact h
  | cons c calls ih =>
      unfold Chronicle.run? at hrun
      split at hrun
      · next hc =>
          split at hrun
          · next hpermitted =>
              exact ih (h.step (hcalls c List.mem_cons_self) hc hpermitted)
                (fun c hc => hcalls c (List.mem_cons_of_mem _ hc)) hrun
          · cases hrun
      · cases hrun

end Runs

end Chronicle

/-- A message about the end of a session keeps to the limits. -/
def Fits (limits : Limits) : Prop := Message.stop.payload.length ≤ limits.messageBytes

instance (limits : Limits) : Decidable (Fits limits) :=
  inferInstanceAs (Decidable (_ ≤ _))

variable {ids : Fin 2 → PeerId} {configs : Fin 2 → Config} {texts : List Text}
variable {posts posts' : Fin 2 → Post} {n : Chronicle} {w' : World} {p : Fin 2} {c : Call}

/-! ## What can be read -/

theorem leaving_stop {limits : Limits} (h : Fits limits) :
    Message.stop.leaving limits = [.stop] := by
  have hencode : Message.stop.encode limits = .ok Message.stop.payload :=
    Message.encode_eq_ok_iff.2 ⟨rfl, rfl, h⟩
  rw [Message.leaving, hencode]

theorem fits_of_start {limits : Limits} {offer : Start}
    (h : (Message.start offer).payload.length ≤ limits.messageBytes) : Fits limits :=
  Nat.le_trans (Message.length_bytes_stop_le protocolVersion offer) h

theorem length_le_of_decode {limits : Limits} {bytes : Bytes} {m : Message}
    (h : Message.decode limits bytes = .ok m) : bytes.length ≤ limits.messageBytes := by
  by_contra hlen
  rw [Message.decode, if_pos (Nat.lt_of_not_le hlen)] at h
  cases h

theorem decode_stop {limits : Limits} (hlimits : limits.messageBytes ≤ Word.max) :
    Message.decode limits Message.stop.payload = .ok .stop ↔ Fits limits := by
  constructor
  · exact length_le_of_decode
  · intro h
    rw [Message.decode_payload hlimits (show Message.stop.InWords from trivial) h]
    rfl

/-- A letter says what was sent. -/
theorem eq_of_readLetter? {limits : Limits} (hlimits : limits.messageBytes ≤ Word.max)
    {m : Message} (hm : m.InWords) {mark : Postmark} {l : Letter}
    (h : readLetter? limits m.payload mark = some l) : l = ⟨m, mark⟩ := by
  unfold readLetter? at h
  split at h
  · next m' hdecode =>
      obtain rfl := Message.eq_of_decode_payload hlimits hm hdecode
      exact (Option.some.inj h).symm
  · cases h

/-- What a party can read of messages with their postmarks. -/
def lettersOf (limits : Limits) (inbox : List Message) (marks : List Postmark) : List Letter :=
  (inbox.zip marks).filterMap fun x => readLetter? limits x.1.payload x.2

theorem lettersOf_append {limits : Limits} {inbox inbox' : List Message}
    {marks marks' : List Postmark} (h : inbox.length = marks.length) :
    lettersOf limits (inbox ++ inbox') (marks ++ marks') =
      lettersOf limits inbox marks ++ lettersOf limits inbox' marks' := by
  rw [lettersOf, List.zip_append h, List.filterMap_append]
  rfl

theorem lettersOf_cons (limits : Limits) (m : Message) (inbox : List Message) (mark : Postmark)
    (marks : List Postmark) : lettersOf limits (m :: inbox) (mark :: marks) =
      (readLetter? limits m.payload mark).toList ++ lettersOf limits inbox marks := by
  simp only [lettersOf, List.zip_cons_cons, List.filterMap_cons]
  cases readLetter? limits m.payload mark <;> rfl

/-- What a peer with the given limits can read of messages with one postmark. -/
def posted (limits : Limits) (mark : Option Postmark) (out : List Message) : List Letter :=
  out.filterMap fun m => mark.bind fun mark => readLetter? limits m.payload mark

theorem lettersOf_replicate (limits : Limits) (mark : Option Postmark) (out : List Message) :
    lettersOf limits out (mark.toList.flatMap fun mark => List.replicate out.length mark) =
      posted limits mark out := by
  cases mark with
  | none => simp [lettersOf, posted]
  | some mark =>
      simp only [Option.toList_some, List.flatMap_cons, List.flatMap_nil, List.append_nil, posted,
        Option.bind_some]
      induction out with
      | nil => rfl
      | cons m out ih =>
          rw [List.length_cons, List.replicate_succ, lettersOf_cons, ih, List.filterMap_cons]
          cases readLetter? limits m.payload mark <;> rfl

section Posted

variable {limits others : Limits} {mark : Postmark} {out : List Message}

theorem updates_posted (hlimits : others.messageBytes ≤ Word.max)
    (hout : ∀ m ∈ out, m.InWords ∧ ∃ u, m = .update u) :
    Ledger.Updates mark.session (posted others (some mark) out) := by
  intro l hl
  obtain ⟨m, hm, hread⟩ := List.mem_filterMap.1 hl
  obtain ⟨hwords, u, rfl⟩ := hout m hm
  rw [eq_of_readLetter? hlimits hwords hread]
  exact ⟨⟨u, rfl⟩, rfl⟩

theorem stopped_posted {configs : Fin 2 → Config} {p : Fin 2}
    (hlimits : (configs p).limits.messageBytes ≤ Word.max) (hfits : Fits limits) :
    Ledger.Stopped (fun q => Fits (configs q).limits) p mark.session
      (posted (configs p).limits (some mark) (Message.stop.leaving limits)) := by
  rw [leaving_stop hfits, posted, List.filterMap_cons, List.filterMap_nil, Option.bind_some,
    readLetter?]
  by_cases hpeer : Fits (configs p).limits
  · rw [(decode_stop hlimits).2 hpeer]
    exact .inl ⟨hpeer, ⟨.stop, mark⟩, rfl, rfl, rfl⟩
  · refine .inr ⟨hpeer, ?_⟩
    cases hdecode : Message.decode (configs p).limits Message.stop.payload with
    | error reason => rfl
    | ok m => exact absurd (length_le_of_decode hdecode) hpeer

/-- An offer is read by a peer whose limits it keeps to, or it is not read at all. -/
theorem posted_start (hlimits : others.messageBytes ≤ Word.max) (offer : Start) :
    posted others (some mark) [.start offer] = [] ∨
      (Fits others ∧ posted others (some mark) [.start offer] = [⟨.start offer, mark⟩]) := by
  rw [posted, List.filterMap_cons, List.filterMap_nil, Option.bind_some]
  cases hletter : readLetter? others (Message.start offer).payload mark with
  | none => exact .inl rfl
  | some l =>
      obtain rfl := eq_of_readLetter? hlimits
        (show (Message.start offer).InWords from trivial) hletter
      refine .inr ⟨?_, rfl⟩
      unfold readLetter? at hletter
      split at hletter
      · next hdecode => exact fits_of_start (length_le_of_decode hdecode)
      · cases hletter

end Posted

end PairEdit.Session
