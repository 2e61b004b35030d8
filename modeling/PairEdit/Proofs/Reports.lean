import PairEdit.Proofs.Acknowledgement
import PairEdit.Proofs.Passive

/-!
# What is sent of local edits

A party sends each edit of its host on the shared document to the peer, once and as it is, with
the number of the edit and the number of the peer's edits taken in.  Nothing else makes it send
an edit, least of all what the peer sends.  This module says so call by call: a party that has
counted right before a call has counted right after it, and the call reports the edit that the
host made with it, or none.
-/

namespace PairEdit.Session

open World

/-! ## What is sent -/

/-- Nobody reads an update in what arrived, whatever the limits are. -/
def HoldsNoUpdate (a : Arrival) : Prop :=
  ∀ sender payload limits u, a = .message sender payload → limits.messageBytes ≤ Word.max →
    Message.decode limits payload ≠ .ok (.update u)

theorem holdsNoUpdate_payload (sender : PeerId) {m : Message} (hm : ∀ u, m ≠ .update u) :
    HoldsNoUpdate (.message sender m.payload) := by
  rintro _ _ limits u ⟨⟩ hlimits hdecode
  have hwords : m.InWords := by
    cases m with
    | update u' => exact absurd rfl (hm u')
    | start | stop => trivial
  exact hm u (Message.eq_of_decode_payload hlimits hwords hdecode).symm

/-- One message arrives at an endpoint of a peer, and nothing else arrives anywhere. -/
def Sent (p : Nat) (peer : PeerId) (m : Message) (w w' : World) : Prop :=
  ∃ target, (w.network.endpoint target).peer = peer ∧
    ∀ id, (w'.network.endpoint id).queue = (w.network.endpoint id).queue ++
      if id = target then [.message (w.identity p) m.payload] else []

/-- A party tries once to send an update.  It arrives, or cannot be sent, and then the host is
told. -/
inductive Attempt (p : Nat) (peer : PeerId) (u : Update) (w w' : World) : Prop where
  | sent (h : Sent p peer (.update u) w w')
      (hevents : (w'.party p).events = (w.party p).events)
  | failed (h : w.sendTarget p peer (.update u) = none)
      (hqueue : ∀ id, (w'.network.endpoint id).queue = (w.network.endpoint id).queue)
      (reason : ShareError)
      (hevents : (w'.party p).events = (w.party p).events ++ [.sendFailed peer reason])

/-- A party tries once to send an update, and does not tell anybody anything else.  Hooks and
listeners may have edited other documents before and after. -/
def Reported (p : Nat) (peer : PeerId) (u : Update) (w w' : World) : Prop :=
  ∃ v v', Apart w v ∧ Attempt p peer u v v' ∧ Apart v' w'

/-- A party does not try to send an update.  It may have taken arrivals off its own queue. -/
structure ReportsNothing (p : Nat) (w w' : World) : Prop where
  endpoint : (w'.party p).endpoint = (w.party p).endpoint
  queue : ∀ id, ∃ n more, (w'.network.endpoint id).queue =
    (w.network.endpoint id).queue.drop n ++ more ∧ (id ≠ (w.party p).endpoint → n = 0) ∧
      ∀ a ∈ more, HoldsNoUpdate a
  events : ∃ more, (w'.party p).events = (w.party p).events ++ more ∧
    ∀ peer reason, .sendFailed peer reason ∉ more

namespace ReportsNothing

variable {w w' w'' : World} {p : Nat}

/-- Nothing is sent and nobody is told. -/
theorem of_eq (hendpoint : (w'.party p).endpoint = (w.party p).endpoint)
    (hqueue : ∀ id, (w'.network.endpoint id).queue = (w.network.endpoint id).queue)
    (hevents : (w'.party p).events = (w.party p).events) : ReportsNothing p w w' where
  endpoint := hendpoint
  queue id := ⟨0, [], by rw [hqueue]; simp, fun _ => rfl, nofun⟩
  events := ⟨[], by rw [hevents]; simp, nofun⟩

theorem refl (p : Nat) (w : World) : ReportsNothing p w w := of_eq rfl (fun _ => rfl) rfl

theorem trans (h : ReportsNothing p w w') (h' : ReportsNothing p w' w'') :
    ReportsNothing p w w'' where
  endpoint := h'.endpoint.trans h.endpoint
  queue id := by
    obtain ⟨n, more, hqueue, hn, hmore⟩ := h.queue id
    obtain ⟨n', more', hqueue', hn', hmore'⟩ := h'.queue id
    rw [h.endpoint] at hn'
    refine ⟨n + n', more.drop (n' - ((w.network.endpoint id).queue.drop n).length) ++ more', ?_,
      fun hid => ?_, fun a ha => ?_⟩
    · rw [hqueue', hqueue, List.drop_append, List.drop_drop, List.append_assoc]
    · rw [hn hid, hn' hid]
    · obtain ha | ha := List.mem_append.1 ha
      · exact hmore a (List.mem_of_mem_drop ha)
      · exact hmore' a ha
  events := by
    obtain ⟨more, hevents, hmore⟩ := h.events
    obtain ⟨more', hevents', hmore'⟩ := h'.events
    refine ⟨more ++ more', by rw [hevents', hevents, List.append_assoc], fun peer reason hmem => ?_⟩
    obtain hmem | hmem := List.mem_append.1 hmem
    · exact hmore peer reason hmem
    · exact hmore' peer reason hmem

theorem of_silent (h : Silent w w') :
    ReportsNothing p w w' := of_eq (h.endpoint p) h.queue (h.events p)

theorem of_apart (h : Apart w w') : ReportsNothing p w w' where
  endpoint := congrArg Party.endpoint (h.party p)
  queue id := by
    obtain ⟨gone, hgone⟩ := h.queue id
    refine ⟨0, _, hgone, fun _ => rfl, fun a ha => ?_⟩
    obtain ⟨peer, -, rfl⟩ := List.mem_map.1 ha
    rintro _ _ _ _ ⟨⟩
  events := ⟨[], by rw [h.party, List.append_nil], nofun⟩

theorem emit (w : World) (p : Nat) {event : Event}
    (h : ∀ peer reason, event ≠ .sendFailed peer reason) : ReportsNothing p w (w.emit p event) where
  endpoint := apply_party_modifyParty (π := Party.endpoint)
    (f := fun party => { party with events := party.events ++ [event] }) (fun _ => rfl) p p
  queue id := ⟨0, [], by simp, fun _ => rfl, nofun⟩
  events := ⟨[event], by simp, fun peer reason hmem =>
    h peer reason (List.mem_singleton.1 hmem).symm⟩

theorem setPhase (w : World) (p : Nat) (phase : Phase) : ReportsNothing p w (w.setPhase p phase) :=
  of_eq (apply_party_modifyParty (π := Party.endpoint)
    (f := fun party => { party with phase := phase }) (fun _ => rfl) p p) (fun _ => rfl)
    (events_setPhase_self ..)

theorem send (w : World) (p : Nat) (peer : PeerId) {m : Message} (hm : ∀ u, m ≠ .update u) :
    ReportsNothing p w (w.send p peer m).2 where
  endpoint := congrArg Party.endpoint (party_send ..)
  queue id := by
    refine ⟨0, _, by rw [endpoint_send, List.drop_zero], fun _ => rfl, fun a ha => ?_⟩
    split at ha
    · rw [List.mem_singleton.1 ha]
      exact holdsNoUpdate_payload _ hm
    · cases ha
  events := ⟨[], by rw [party_send, List.append_nil], nofun⟩

theorem receive (w : World) (p : Nat) : ReportsNothing p w (w.receive p).2 where
  endpoint := rfl
  queue id := by
    unfold World.receive Network.receive
    dsimp only
    split
    · next arrival rest hqueue =>
        by_cases hid : id = (w.party p).endpoint
        · subst hid
          refine ⟨1, [], ?_, fun hne => absurd rfl hne, nofun⟩
          rw [hqueue]
          simp [Network.endpoint, Network.modify]
        · refine ⟨0, [], ?_, fun _ => rfl, nofun⟩
          simp [Network.endpoint, Network.modify, Table.get_modify_of_ne _ _ hid]
    · exact ⟨0, [], by simp, fun _ => rfl, nofun⟩
  events := ⟨[], by rw [List.append_nil]; rfl, nofun⟩

/-- To leave, to tell the host, and to tell the peer. -/
theorem farewell (w : World) (p : Nat) (other : PeerId) (reason : EndReason) :
    ReportsNothing p w (((w.leave p).emit p (.ended other reason)).send p other .stop).2 := by
  have hemit : ReportsNothing p (w.leave p) ((w.leave p).emit p (.ended other reason)) :=
    emit _ p nofun
  exact (of_silent (.leave w p)).trans (hemit.trans (send _ p other nofun))

end ReportsNothing

/-- What becomes of a message is the same when seen from before and from later. -/
theorem Sent.congr {v v' w w' : World} {p : Nat} {peer : PeerId} {m : Message}
    (h : Sent p peer m v v') (hnetwork : v.network = w.network)
    (hidentity : v.identity p = w.identity p)
    (hlater : ∀ id, (w'.network.endpoint id).queue = (v'.network.endpoint id).queue) :
    Sent p peer m w w' := by
  obtain ⟨target, hpeer, hqueue⟩ := h
  rw [hnetwork] at hpeer hqueue
  rw [hidentity] at hqueue
  exact ⟨target, hpeer, fun id => (hlater id).trans (hqueue id)⟩

theorem Sent.of_send {w : World} {p target : Nat} {peer : PeerId} {m : Message}
    (h : w.sendTarget p peer m = some target) : Sent p peer m w (w.send p peer m).2 := by
  refine ⟨target, (of_sendTarget h).2, fun id => ?_⟩
  rw [endpoint_send, h]
  by_cases hid : id = target
  · subst hid
    simp
  · rw [if_neg hid, if_neg fun heq => hid (Option.some.inj heq).symm]

/-! ## The state of a party -/

/-- What a party and its host have seen of the session so far: the edits of the host on the
shared document that change something, and how many updates of the peer were taken in. -/
structure Tally where
  edits : List Edit
  heard : Nat
deriving DecidableEq

/-- The edit that a call puts into the shared document, if it is one of the host that changes
something. -/
def World.hostEdit? (w : World) (p : Nat) : Call → Outcome → Option Edit
  | .edit d e, .edited (.ok ()) =>
      if (w.phase p).document = some d ∧ e.isNoop = false then some e else none
  | _, _ => none

/-- Whether a call takes in an update of the peer. -/
def World.hears (w : World) (p : Nat) : Call → Outcome → Bool
  | .handleMessage _ sender payload, .shared (.ok ()) =>
      match Message.decode (w.limits p) payload with
      | .ok (.update _) => (w.phase p).other == some sender
      | _ => false
  | _, _ => false

/-- Whether a call begins a session, or an offer. -/
def World.begins (w : World) (p : Nat) : Call → Outcome → Bool
  | .start .., .shared (.ok ()) => true
  | .handleMessage _ _ payload, .shared (.ok ()) =>
      match Message.decode (w.limits p) payload with
      | .ok (.start _) => w.phase p == .idle
      | _ => false
  | _, _ => false

/-- The tally after a call. -/
def Tally.after (t : Tally) (p : Nat) (w : World) (c : Call) (o : Outcome) : Tally :=
  if w.begins p c o then ⟨[], 0⟩
  else ⟨t.edits ++ (w.hostEdit? p c o).toList, t.heard + if w.hears p c o then 1 else 0⟩

namespace Tally

theorem after_of_begins {t : Tally} {p : Nat} {w : World} {c : Call} {o : Outcome}
    (hbegins : w.begins p c o = true) : t.after p w c o = ⟨[], 0⟩ := by
  rw [after, if_pos hbegins]

theorem after_of_quiet {t : Tally} {p : Nat} {w : World} {c : Call} {o : Outcome}
    (hbegins : w.begins p c o = false) (hedit : w.hostEdit? p c o = none)
    (hhears : w.hears p c o = false) : t.after p w c o = t := by
  simp [after, hbegins, hedit, hhears]

end Tally

/-- The party is idle, or its counters are those of the tally.  A live session listens to its
document with one listener. -/
inductive Tallied (p : Nat) (w : World) (t : Tally) : Prop where
  | idle (hidle : w.phase p = .idle)
  | offered (o : Offered) (hoffered : w.phase p = .offered o) (hedits : t.edits = [])
      (hheard : o.buffered = t.heard)
  | live (l : Live) (id : Nat) (b : Backlog) (hlive : w.phase p = .live l)
      (hcapture : l.capture = some id)
      (hcaptures : captures (w.document l.document) = [(id, .capture p l.epoch)])
      (hstrategy : l.strategy = .backlog b) (hsent : b.sent = t.edits.length)
      (hheard : b.received = t.heard)

theorem Tallied.congr {p : Nat} {w w' : World} {t : Tally} (h : Tallied p w t)
    (hphase : w'.phase p = w.phase p)
    (hcaptures : ∀ d, captures (w'.document d) = captures (w.document d)) : Tallied p w' t := by
  cases h with
  | idle hidle => exact .idle (hphase.trans hidle)
  | offered o hoffered hedits hheard => exact .offered o (hphase.trans hoffered) hedits hheard
  | live l id b hlive hcapture hold hstrategy hsent hheard =>
      exact .live l id b (hphase.trans hlive) hcapture ((hcaptures _).trans hold) hstrategy hsent
        hheard

/-- A party between calls. -/
structure BetweenCalls (p : Nat) (w : World) (t : Tally) : Prop where
  arises : w.Arises
  passive : w.Passive p
  tallied : Tallied p w t

/-- What a call leads to that does not report an edit. -/
structure Leads (p : Nat) (t : Tally) (w w' : World) : Prop where
  reportsNothing : ReportsNothing p w w'
  passive : w'.Passive p
  tallied : Tallied p w' t

/-- A call that the host of a party may make: to nobody else's party, and a document that is to
be shared is one that no hook and no listener edits. -/
structure World.Allows (w : World) (p : Nat) (c : Call) : Prop where
  party : ∀ q, c.party? = some q → q = p
  spares : ∀ d, c.party? = some p → c.document? = some d → w.Spares d

/-- After a call the tally is the next one, and the call has reported the edit that the host
made with it, if it did, and nothing else. -/
structure Accounts (p : Nat) (t : Tally) (c : Call) (o : Outcome) (w w' : World) : Prop where
  betweenCalls : BetweenCalls p w' (t.after p w c o)
  reportsNothing : w.hostEdit? p c o = none → ReportsNothing p w w'
  reported : ∀ e, w.hostEdit? p c o = some e → ∃ peer, (w.phase p).partner = some peer ∧
    Reported p peer ⟨e, t.edits.length + 1, t.heard⟩ w w'

variable {w w' : World} {p d : Nat} {t t' : Tally}

namespace Accounts

theorem of_leads {c : Call} {o : Outcome} (harises : w'.Arises)
    (hnone : w.hostEdit? p c o = none) (h : Leads p (t.after p w c o) w w') :
    Accounts p t c o w w' where
  betweenCalls := ⟨harises, h.passive, h.tallied⟩
  reportsNothing _ := h.reportsNothing
  reported e he := by
    rw [hnone] at he
    cases he

theorem of_quiet {c : Call} {o : Outcome} (harises : w'.Arises)
    (hbegins : w.begins p c o = false) (hnone : w.hostEdit? p c o = none)
    (hhears : w.hears p c o = false) (h : Leads p t w w') : Accounts p t c o w w' :=
  of_leads harises hnone (by rwa [Tally.after_of_quiet hbegins hnone hhears])

end Accounts

/-- A party captures an edit of its host: it counts the edit and tries to send it. -/
theorem attempt_of_capture {l : Live} {b : Backlog} {e : Edit} (hlive : w.phase p = .live l)
    (hstrategy : l.strategy = .backlog b) (hnoop : e.isNoop = false)
    (h : w.capture p l.epoch e = .ok w') :
    Attempt p l.participants.other ⟨e, b.sent + 1, b.received⟩ w w' ∧
      (∃ b', b'.sent = b.sent + 1 ∧ b'.received = b.received ∧
        w'.phase p = .live { l with strategy := .backlog b' }) ∧
      ∀ d, captures (w'.document d) = captures (w.document d) := by
  simp only [World.capture, hlive, hnoop, ne_eq, not_true_eq_false, Bool.false_eq_true, or_self,
    if_false] at h
  obtain ⟨⟨u, s⟩, hregister, h⟩ := bind_eq_ok_iff.1 h
  rw [orOverflow_eq_ok_iff, hstrategy] at hregister
  obtain ⟨b', hb', rfl⟩ := Strategy.register?_backlog_eq_some_iff.1 hregister
  obtain ⟨-, rfl, rfl⟩ := Backlog.register?_eq_some_iff.1 hb'
  let b' : Backlog := { b with outstanding := b.outstanding ++ [e], sent := b.sent + 1 }
  let v := w.setPhase p (.live { l with strategy := .backlog b' })
  have hphase : v.phase p = .live { l with strategy := .backlog b' } := phase_setPhase_self ..
  have hidentity : v.identity p = w.identity p := by simp [v, identity, World.setPhase]
  have htarget : v.sendTarget p l.participants.other (.update ⟨e, b.sent + 1, b.received⟩) =
      w.sendTarget p l.participants.other (.update ⟨e, b.sent + 1, b.received⟩) :=
    sendTarget_congr (network_setPhase ..) (by simp [limits, World.setPhase]) hidentity _ _
  obtain ⟨reason, hsend, hnone⟩ | ⟨target, hsend, hsome⟩ :=
    v.send_cases p l.participants.other (.update ⟨e, b.sent + 1, b.received⟩)
  · rw [hsend] at h
    cases h
    refine ⟨.failed (htarget ▸ hnone) (fun _ => rfl) reason ?_, ⟨b', rfl, rfl, ?_⟩, fun _ => rfl⟩
    · rw [events_emit_self, events_setPhase_self]
    · rw [phase_emit, hphase]
  · have hsent := Sent.of_send hsome
    rw [hsend] at h hsent
    cases h
    exact ⟨.sent (hsent.congr rfl hidentity fun _ => rfl) (events_setPhase_self ..),
      ⟨b', rfl, rfl, hphase⟩, fun _ => rfl⟩

/-- A session that resumes captures with the next listener of its document. -/
theorem phase_resume_self {l : Live} (hlive : w.phase p = .live l) (hnone : l.capture = none) :
    (w.resume p l.epoch).phase p =
      .live { l with capture := some (w.document l.document).nextId } := by
  rw [World.resume_of_live hlive hnone, phase_setPhase_self]
  rfl

theorem document_resume_self {l : Live} (hlive : w.phase p = .live l) (hnone : l.capture = none) :
    (w.resume p l.epoch).document l.document =
      ((w.document l.document).listen (.capture p l.epoch)).2 := by
  rw [World.resume_of_live hlive hnone, document_setPhase]
  exact document_setDocument_self ..

/-- A document nobody captured is captured when a session resumes on it. -/
theorem captures_resume {l : Live} (hlive : w.phase p = .live l) (hnone : l.capture = none)
    (hcaptures : captures (w.document l.document) = []) :
    ∃ id, (w.resume p l.epoch).phase p = .live { l with capture := some id } ∧
      captures ((w.resume p l.epoch).document l.document) = [(id, .capture p l.epoch)] := by
  refine ⟨_, phase_resume_self hlive hnone, ?_⟩
  rw [document_resume_self hlive hnone, captures_listen, hcaptures]
  rfl

namespace Leads

theorem of_idle (hnothing : ReportsNothing p w w') (hpassive : w'.Passive p)
    (hidle : w'.phase p = .idle) :
    Leads p t w w' :=
  ⟨hnothing, hpassive, .idle hidle⟩

theorem farewell (hw : w.Passive p) (other : PeerId) (reason : EndReason) :
    Leads p t w (((w.leave p).emit p (.ended other reason)).send p other .stop).2 := by
  refine of_idle (.farewell w p other reason)
    ((hw.leave.emit (.ended other reason)).send other .stop) ?_
  rw [phase_send, phase_emit, phase_leave_self]

theorem prepend {w₁ : World} (hnothing : ReportsNothing p w w₁) (h : Leads p t w₁ w') :
    Leads p t w w' :=
  ⟨hnothing.trans h.reportsNothing, h.passive, h.tallied⟩

theorem setWriting (h : Leads p t w w') (writing : Bool) :
    Leads p t w (w'.setWriting p writing) where
  reportsNothing := h.reportsNothing.trans (.of_silent (.setWriting w' p writing))
  passive := h.passive.setWriting writing
  tallied := h.tallied.congr (phase_setWriting ..) fun _ => rfl

theorem emit (h : Leads p t w w') {event : Event}
    (hevent : ∀ peer reason, event ≠ .sendFailed peer reason) :
    Leads p t w (w'.emit p event) where
  reportsNothing := h.reportsNothing.trans (.emit w' p hevent)
  passive := h.passive.emit event
  tallied := h.tallied.congr (phase_emit ..) fun _ => rfl

theorem endSession (hnothing : ReportsNothing p w w') (hw : w'.Passive p) {l : Live}
    (hlive : w'.phase p = .live l) {reason : EndReason} :
    Leads p t w (w'.endSession p l.epoch reason) := by
  simp only [World.endSession, hlive, if_true]
  exact .prepend hnothing (.farewell hw _ _)

theorem endOffer (hnothing : ReportsNothing p w w') (hw : w'.Passive p) {o : Offered}
    (hoffered : w'.phase p = .offered o) {reason : EndReason} :
    Leads p t w (w'.endOffer p o.participants.initiator reason) := by
  simp only [World.endOffer, hoffered, if_true]
  exact .prepend hnothing (.farewell hw _ _)

/-- An offer is kept, and the host is told. -/
theorem offer (hw : w.Passive p) {o : Offered} (ho : o.buffered = 0) :
    Leads p ⟨[], 0⟩ w ((w.setPhase p (.offered o)).emit p (.startRequested o.toOffer)) where
  reportsNothing := by
    have hemit : ReportsNothing p (w.setPhase p (.offered o))
        ((w.setPhase p (.offered o)).emit p (.startRequested o.toOffer)) := .emit _ p nofun
    exact (ReportsNothing.setPhase w p _).trans hemit
  passive := (hw.setPhase_apart rfl).emit _
  tallied := .offered o (by rw [phase_emit, phase_setPhase_self]) rfl ho

/-- A session that captures nothing writes, and resumes. -/
theorem resume {l : Live} {b : Backlog} {e : Edit} {depth : Nat}
    {written : Except DocumentError Unit} (hsubscribed : Subscribed w) (hw : w.Passive p)
    (hlive : w.phase p = .live l) (hnone : l.capture = none) (hstrategy : l.strategy = .backlog b)
    (hsent : b.sent = t.edits.length) (hheard : b.received = t.heard)
    (h : World.write depth l.document e w = .ok (written, w')) :
    Leads p t w (w'.resume p l.epoch) ∧
      ∃ id, (w'.resume p l.epoch).phase p = .live { l with capture := some id } := by
  have hcaptures : captures (w.document l.document) = [] := by
    refine captures_eq_nil hsubscribed hw ?_
    rintro id epoch ⟨l', hlive', -, hid, -⟩
    cases hlive.symm.trans hlive'
    rw [hnone] at hid
    cases hid
  have hapart := Apart.write hw hsubscribed hcaptures h
  have hlive' := (hapart.phase_eq p).trans hlive
  obtain ⟨id, hresumed, hcapture⟩ := captures_resume hlive' hnone
    ((hapart.captures_eq _).trans hcaptures)
  have hsilent := Silent.resume w' p l.epoch
  exact ⟨{
    reportsNothing := (ReportsNothing.of_apart hapart).trans (.of_silent hsilent)
    passive := (hapart.passive hw).silent hsilent fun d hd =>
      (hapart.passive hw).spares d (by rw [hlive']; rw [hresumed] at hd; exact hd)
    tallied := .live _ id b hresumed rfl hcapture hstrategy hsent hheard }, id, hresumed⟩

end Leads

namespace BetweenCalls

theorem refl (h : BetweenCalls p w t) : Leads p t w w := ⟨.refl p w, h.passive, h.tallied⟩

/-- Ending a session or an offer. -/
theorem of_endRun (h : BetweenCalls p w t) (hend : EndRun p w w') : Leads p t w w' := by
  cases hend with
  | none => exact h.refl
  | left peer reason =>
      have hnothing : ReportsNothing p w ((w.leave p).emit p (.ended peer reason)) :=
        (ReportsNothing.of_silent (.leave w p)).trans (.emit _ p nofun)
      refine .of_idle hnothing (h.passive.leave.emit _) ?_
      rw [phase_emit, phase_leave_self]
  | told => exact .farewell h.passive _ _

/-- An offer is kept by an idle party, whose tally begins anew. -/
theorem handleStart (h : BetweenCalls p w t) {sender : PeerId} {offer : Start}
    {result : Except ShareError Unit} (hrun : w.handleStart p sender offer = (result, w'))
    (hbegins : w.phase p = .idle → result = .ok () → t' = ⟨[], 0⟩)
    (hgoes : w.phase p ≠ .idle → t' = t) : Leads p t' w w' := by
  obtain ⟨-, reason, heq⟩ | ⟨-, -, ⟨hidle, heq⟩ | ⟨hbusy, heq⟩⟩ :=
    w.handleStart_cases p sender offer
  · cases heq.symm.trans hrun
    by_cases hidle : w.phase p = .idle
    · exact .of_idle (.refl p w) h.passive hidle
    · rw [hgoes hidle]
      exact h.refl
  · cases heq.symm.trans hrun
    rw [hbegins hidle rfl]
    exact .offer h.passive rfl
  · have hemit : ReportsNothing p w (w.emit p (.refused sender)) := .emit w p nofun
    have hleads : Leads p t w ((w.emit p (.refused sender)).send p sender .stop).2 := {
      reportsNothing := hemit.trans (.send _ p sender nofun)
      passive := (h.passive.emit (.refused sender)).send sender .stop
      tallied := h.tallied.congr (by rw [phase_send, phase_emit]) fun d => by
        rw [document_send, document_emit] }
    rw [heq.symm.trans hrun] at hleads
    rw [hgoes hbusy]
    exact hleads

/-- An update that is admitted counts as received. -/
theorem received (h : BetweenCalls p w t) {l : Live} {u : Update} {len : Nat} {e : Edit}
    {s : Strategy} (hlive : w.phase p = .live l)
    (hadmitted : l.admit? u len = some (.ok e, { l with strategy := s })) :
    ∃ b, s = .backlog b ∧ b.sent = t.edits.length ∧ b.received = t.heard + 1 := by
  have hreceive := Live.receive?_of_admit? hadmitted
  cases h.tallied with
  | live l' id b hlive' _ _ hstrategy hsent hheard =>
      cases hlive.symm.trans hlive'
      rw [hstrategy] at hreceive
      obtain ⟨b', hb', rfl⟩ := Strategy.receive?_backlog_eq_some_iff.1 hreceive
      obtain ⟨-, edits, -, rfl⟩ := Backlog.receive?_eq_some_iff.1 hb'
      refine ⟨_, rfl, ?_, congrArg (· + 1) hheard⟩
      exact (Backlog.sent_retire ..).trans hsent
  | idle hidle => cases hlive.symm.trans hidle
  | offered o hoffered => cases hlive.symm.trans hoffered

/-- An update that an offer takes in counts as heard. -/
theorem buffered (h : BetweenCalls p w t) {o : Offered} {e : Edit} {text : Text} {n : Nat}
    (hoffered : w.phase p = .offered o)
    (habsorb : o.absorb? (w.limits p) e = some (.ok (), { o with buffer := text, buffered := n })) :
    Leads p { t with heard := t.heard + 1 } w
      (w.setPhase p (.offered { o with buffer := text, buffered := n })) := by
  refine ⟨.setPhase w p _, h.passive.setPhase_apart rfl, ?_⟩
  have hcount : n = o.buffered + 1 := (Offered.buffered_of_absorb? habsorb).2
  cases h.tallied with
  | offered o' hoffered' hedits hheard =>
      cases hoffered.symm.trans hoffered'
      exact .offered _ (phase_setPhase_self ..) hedits (hcount.trans (congrArg (· + 1) hheard))
  | idle hidle => cases hoffered.symm.trans hidle
  | live l id b hlive => cases hoffered.symm.trans hlive

/-- While an edit of the peer is written nothing is captured, so it is not sent back. -/
theorem suspend_write (h : BetweenCalls p w t) {l : Live} {s : Strategy} {u : Update}
    {len depth : Nat}
    {e : Edit} {result : Except DocumentError Unit} {v : World} (hlive : w.phase p = .live l)
    (hadmitted : l.admit? u len = some (.ok e, { l with strategy := s }))
    (hwritten : World.write depth l.document e ((w.suspend p l s).setWriting p true) =
      .ok (result, v)) :
    Leads p { t with heard := t.heard + 1 } w (v.resume p l.epoch) ∧
      ∃ id, (v.resume p l.epoch).phase p =
        .live { l with strategy := s, confirmed := true, capture := some id } := by
  have hsilent : Silent w ((w.suspend p l s).setWriting p true) :=
    (Silent.suspend w s hlive).trans (.setWriting ..)
  have harises : ((w.suspend p l s).setWriting p true).Arises :=
    .writing (.worldStep h.arises (.suspend w p l s hlive)) p true
  have hsuspended : ((w.suspend p l s).setWriting p true).phase p =
      .live { l with strategy := s, confirmed := true, capture := none } := by
    rw [phase_setWriting, phase_suspend_self]
  have hpassive : ((w.suspend p l s).setWriting p true).Passive p := by
    refine h.passive.silent hsilent fun d hd => h.passive.spares d ?_
    rw [hsuspended] at hd
    exact (congrArg Phase.document hlive).trans hd
  obtain ⟨b, hs, hsent, hheard⟩ := h.received hlive hadmitted
  obtain ⟨hleads, hresumed⟩ := Leads.resume (t := { t with heard := t.heard + 1 })
    harises.subscribed hpassive hsuspended rfl hs hsent hheard hwritten
  exact ⟨.prepend (.of_silent hsilent) hleads, hresumed⟩

/-- Of an update nothing is sent, and it counts as heard when it is taken in. -/
theorem handleUpdate (h : BetweenCalls p w t) {depth : Nat} {sender : PeerId} {u : Update}
    {result : Except ShareError Unit}
    (hrun : w.handleUpdate (World.write depth) p sender u = .ok (result, w'))
    (htaken : (w.phase p).other = some sender → result = .ok () →
      t' = { t with heard := t.heard + 1 })
    (hleft : (w.phase p).other ≠ some sender → t' = t) : Leads p t' w w' := by
  cases (UpdateRun.of_handleUpdate hrun).2 with
  | ignored hidle =>
      rw [hidle]
      exact .of_idle (.setPhase w p .idle) (h.passive.setPhase_apart rfl) (phase_setPhase_self ..)
  | outsider _ hother =>
      rw [hleft hother]
      exact ⟨.setPhase w p _, h.passive.setPhase h.passive.spares,
        h.tallied.congr (phase_setPhase_self ..) fun _ => rfl⟩
  | buffered o text n hoffered hother habsorb =>
      rw [htaken (by rw [hoffered, ← hother]; rfl) rfl]
      exact h.buffered hoffered habsorb
  | endOffer o text n reason hoffered hother =>
      subst hother
      exact .endOffer (.setPhase w p _) (h.passive.setPhase_apart rfl) (phase_setPhase_self w p
        (.offered { o with buffer := text, buffered := n }))
  | endSession l s reason hlive =>
      have hpassive : (w.setPhase p (.live { l with strategy := s })).Passive p :=
        h.passive.setPhase fun d hd =>
          h.passive.spares d ((congrArg Phase.document hlive).trans hd)
      exact .endSession (.setPhase w p _) hpassive (phase_setPhase_self w p
        (.live { l with strategy := s }))
  | refused l s e hlive _ hadmitted hwritten =>
      obtain ⟨hleads, id, hresumed⟩ := h.suspend_write hlive hadmitted hwritten
      exact .setWriting (.endSession hleads.reportsNothing hleads.passive hresumed) false
  | @written l s e v hlive hother hadmitted hwritten =>
      obtain ⟨hleads, -⟩ := h.suspend_write hlive hadmitted hwritten
      rw [htaken (by rw [hlive, ← hother]; rfl) rfl]
      split
      · exact hleads.setWriting false
      · have hconfirmed : Leads p { t with heard := t.heard + 1 } w
            ((v.resume p l.epoch).emit p (.confirmed sender)) := hleads.emit nofun
        exact hconfirmed.setWriting false

/-- A session begins with the updates of its offer counted. -/
theorem skipped (h : BetweenCalls p w t) {o : Offered} {s : Strategy}
    (hoffered : w.phase p = .offered o)
    (hskip : (Strategy.start (w.party p).config.strategy .receiver).skip? o.buffered = some s) :
    ∃ b, s = .backlog b ∧ b.sent = t.edits.length ∧ b.received = t.heard := by
  cases h.tallied with
  | offered o' hoffered' hedits hheard =>
      cases hoffered.symm.trans hoffered'
      rw [h.passive.strategy] at hskip
      obtain ⟨b, hb, rfl⟩ := Strategy.skip?_backlog_eq_some_iff.1 hskip
      obtain ⟨-, rfl⟩ := Backlog.skip?_eq_some_iff.1 hb
      exact ⟨_, rfl, by rw [hedits]; rfl, (Nat.zero_add _).trans hheard⟩
  | idle hidle => cases hoffered.symm.trans hidle
  | live l id b hlive => cases hoffered.symm.trans hlive

/-- A party that accepts takes over what its offer has counted. -/
theorem accept (h : BetweenCalls p w t) (hspares : w.Spares d) {depth : Nat}
    {result : Except ShareError Unit}
    (hrun : w.accept (World.write depth) p d = .ok (result, w')) : Leads p t w w' := by
  have hwrote : ∀ {o epoch u written v}, w.phase p = .offered o →
      (w.setWriting p true).enter p d o = .ok (epoch, u) →
      World.write depth d ((u.document d).overwriting o.buffer) u = .ok (written, v) →
      Leads p t w (v.resume p epoch) ∧ ∃ l, (v.resume p epoch).phase p = .live l ∧
        l.epoch = epoch := by
    intro o epoch u written v hoffered henter hwritten
    obtain ⟨s, hskip, rfl, rfl⟩ := exists_join_of_enter henter
    rw [(Silent.setWriting w p true).config] at hskip
    have hlocked : (w.setWriting p true).phase p = .offered o :=
      (phase_setWriting ..).trans hoffered
    have hsilent : Silent w ((w.setWriting p true).join p d o s) :=
      (Silent.setWriting w p true).trans (.join _ d s hlocked)
    have harises : ((w.setWriting p true).join p d o s).Arises :=
      .worldStep (.writing h.arises p true) (.join _ p d o s hlocked)
    obtain ⟨b, rfl, hsent, hheard⟩ := h.skipped hoffered hskip
    have hpassive : ((w.setWriting p true).join p d o (.backlog b)).Passive p := by
      refine h.passive.silent hsilent fun d' hd' => ?_
      rw [World.join, phase_setPhase_self] at hd'
      cases hd'
      exact hspares
    obtain ⟨hleads, id, hresumed⟩ := Leads.resume (t := t) harises.subscribed hpassive
      (phase_setPhase_self ..) rfl rfl hsent hheard hwritten
    exact ⟨.prepend (.of_silent hsilent) hleads, _, hresumed, rfl⟩
  cases (AcceptRun.of_accept hrun).2 with
  | none => exact h.refl
  | refused o hoffered henter hwritten =>
      obtain ⟨hleads, l, hresumed, rfl⟩ := hwrote hoffered henter hwritten
      exact .setWriting (.endSession hleads.reportsNothing hleads.passive hresumed) false
  | @accepted o epoch u v hoffered henter hwritten =>
      obtain ⟨hleads, -⟩ := hwrote hoffered henter hwritten
      have hstarted : Leads p t w
          ((v.resume p epoch).emit p (.started o.participants.initiator .receiver)) :=
        hleads.emit nofun
      exact hstarted.setWriting false

/-- A session that begins captures its document with one listener. -/
theorem initiate (h : BetweenCalls p w t) (hidle : w.phase p = .idle) (hspares : w.Spares d)
    (participants : Participants) (s : Strategy) :
    ReportsNothing p w (w.initiate p d participants s) ∧ (w.initiate p d participants s).Passive p ∧
      ∃ id, (w.initiate p d participants s).phase p =
          .live ⟨participants, (w.nextEpoch p).1, d, some id, s, false⟩ ∧
        captures ((w.initiate p d participants s).document d) =
          [(id, .capture p (w.nextEpoch p).1)] := by
  have hnone : captures (w.document d) = [] := by
    refine captures_eq_nil h.arises.subscribed h.passive ?_
    rintro id epoch ⟨l, hlive, -⟩
    rw [hidle] at hlive
    cases hlive
  have hattach : Silent w ((w.nextEpoch p).2.attach p (w.nextEpoch p).1 d).2 :=
    (Silent.nextEpoch w p).trans (.setDocument _ rfl)
  have hpassive : ((w.nextEpoch p).2.attach p (w.nextEpoch p).1 d).2.Passive p := by
    refine h.passive.silent hattach fun d' hd' => h.passive.spares d' ?_
    rw [← phase_nextEpoch w p p]
    exact hd'
  refine ⟨(ReportsNothing.of_silent hattach).trans (.setPhase _ p _),
    hpassive.setPhase fun d' hd' => ?_, _, phase_setPhase_self .., ?_⟩
  · cases hd'
    exact hspares.silent hattach
  show captures (((w.nextEpoch p).2.setDocument d
    ((w.document d).listen (.capture p (w.nextEpoch p).1)).2).document d) = _
  rw [document_setDocument_self, captures_listen, hnone]
  rfl

/-- A start that succeeds sends its offer and begins a session with nothing counted. -/
theorem start (h : BetweenCalls p w t) (hspares : w.Spares d) {our other : PeerId}
    {name : Option Text} {fileName : Text} {result : Except ShareError Unit}
    (hrun : w.start p our name other fileName d = (result, w')) :
    (∃ reason, result = .error reason) ∧ Leads p t w w' ∨
      result = .ok () ∧ w.phase p = .idle ∧ Leads p ⟨[], 0⟩ w w' ∧
        (w'.phase p).partner = some other ∧
        Sent p other (.start ⟨our, name.getD our.short, other, (w.document d).text, fileName⟩)
          w w' := by
  have hrefused : ∀ {reason}, (Except.error reason, w) = (result, w') →
      (∃ reason, result = .error reason) ∧ Leads p t w w' := by
    intro reason heq
    cases heq
    exact ⟨⟨_, rfl⟩, h.refl⟩
  by_cases hother : our = other
  · rw [World.start, if_pos hother] at hrun
    exact .inl (hrefused hrun)
  by_cases hour : our = w.identity p
  · cases hidle : w.phase p with
    | idle =>
        let offer : Start := ⟨our, name.getD our.short, other, (w.document d).text, fileName⟩
        let v := w.initiate p d ⟨our, our, other⟩ (.start .backlog .initiator)
        have hoffer : ∀ u, Message.start offer ≠ .update u := by
          intro u h
          cases h
        have hstarted : ∀ peer reason,
            Event.started other .initiator ≠ .sendFailed peer reason := by
          intro peer reason h
          cases h
        rw [start_eq_of_idle hother hour hidle, h.passive.strategy] at hrun
        obtain ⟨hnothing, hpassive, id, hlive, hcaptures⟩ :=
          h.initiate hidle hspares ⟨our, our, other⟩ (.start .backlog .initiator)
        obtain ⟨reason, hsend, -⟩ | ⟨target, hsend, htarget⟩ := v.send_cases p other (.start offer)
        · rw [hsend] at hrun
          simp only [v, hlive, Phase.isEpoch, beq_self_eq_true, if_true] at hrun
          cases hrun
          exact .inl ⟨⟨_, rfl⟩, .of_idle (hnothing.trans (.of_silent (.leave v p)))
            hpassive.leave (phase_leave_self v p)⟩
        · have hsent := Sent.of_send htarget
          have hleads : Leads p ⟨[], 0⟩ w (v.send p other (.start offer)).2 := {
            reportsNothing := hnothing.trans (.send v p other hoffer)
            passive := hpassive.send _ _
            tallied := .live _ id (.start .initiator) ((phase_send ..).trans hlive) rfl
              (by rw [document_send, hcaptures]) rfl rfl rfl }
          have hphase : (v.send p other (.start offer)).2.phase p = v.phase p := phase_send ..
          have hidentity : v.identity p = w.identity p :=
            (WorldSteps.single (.initiate w p d _ _ hidle)).identity_eq p
          rw [hsend] at hrun hsent hleads hphase
          cases hrun
          refine .inr ⟨rfl, rfl, hleads.emit hstarted, ?_, hsent.congr rfl hidentity fun _ => rfl⟩
          rw [phase_emit, hphase, hlive]
          simp [Phase.partner, Participants.other, Participants.role]
    | offered | live =>
        rw [World.start, if_neg hother, if_neg (not_not_intro hour)] at hrun
        simp only [hidle] at hrun
        exact .inl (hrefused hrun)
  · rw [World.start, if_neg hother, if_pos hour] at hrun
    exact .inl (hrefused hrun)

/-- An edit is reported when it goes into the shared document and changes something, and
otherwise nothing is sent. -/
theorem edit (h : BetweenCalls p w t) {depth : Nat} {e : Edit} {result : Except DocumentError Unit}
    (hrun : World.write depth d e w = .ok (result, w')) :
    (w.hostEdit? p (.edit d e) (.edited result) = none → Leads p t w w') ∧
      ∀ e', w.hostEdit? p (.edit d e) (.edited result) = some e' →
        ∃ peer, (w.phase p).partner = some peer ∧
          Reported p peer ⟨e', t.edits.length + 1, t.heard⟩ w w' ∧ w'.Passive p ∧
          Tallied p w' { t with edits := t.edits ++ [e'] } := by
  have hsubscribed := h.arises.subscribed
  have hapart : Apart w w' → Leads p t w w' := fun hapart =>
    ⟨.of_apart hapart, hapart.passive h.passive,
      h.tallied.congr (hapart.phase_eq p) hapart.captures_eq⟩
  cases result with
  | error reason =>
      refine ⟨fun _ => hapart (.write_error h.passive hsubscribed hrun), nofun⟩
  | ok =>
      by_cases hdocument : (w.phase p).document = some d
      · cases h.tallied with
        | idle hidle =>
            rw [hidle] at hdocument
            cases hdocument
        | offered o hoffered =>
            rw [hoffered] at hdocument
            cases hdocument
        | live l id b hlive hcapture hcaptures hstrategy hsent hheard =>
            rw [hlive] at hdocument
            cases hdocument
            obtain ⟨w₁, w₂, hbefore, hcall, hafter⟩ :=
              exists_capture_of_write h.passive hsubscribed hcaptures hrun
            have hlive₁ := (hbefore.phase_eq p).trans hlive
            cases hnoop : e.isNoop with
            | true =>
                simp only [World.capture, hlive₁, hnoop, or_true, if_true] at hcall
                cases hcall
                refine ⟨fun _ => hapart (hbefore.trans hafter), fun e' he' => ?_⟩
                simp [World.hostEdit?, hnoop] at he'
            | false =>
                have hpassive := (hbefore.passive h.passive).capture hcall
                obtain ⟨hattempt, ⟨b', hsent', hheard', hlive₂⟩, hsame⟩ :=
                  attempt_of_capture hlive₁ hstrategy hnoop hcall
                refine ⟨fun hnone => ?_, fun e' he' => ?_⟩
                · simp [World.hostEdit?, hnoop, hlive, Phase.document] at hnone
                · simp only [World.hostEdit?, hnoop, hlive, Phase.document, and_self, if_true,
                    Option.some.injEq] at he'
                  subst he'
                  rw [hsent, hheard] at hattempt
                  refine ⟨_, by rw [hlive]; rfl, ⟨w₁, w₂, hbefore, hattempt, hafter⟩,
                    hafter.passive hpassive, .live _ id b' ((hafter.phase_eq p).trans hlive₂)
                      hcapture ?_ rfl ?_ ?_⟩
                  · rw [hafter.captures_eq, hsame, hbefore.captures_eq, hcaptures]
                  · rw [hsent', hsent, List.length_append, List.length_singleton]
                  · rw [hheard', hheard]
      · have hcaptures := captures_eq_nil_of_ne hsubscribed h.passive hdocument
        refine ⟨fun _ => hapart (.write h.passive hsubscribed hcaptures hrun), fun e' he' => ?_⟩
        simp [World.hostEdit?, hdocument] at he'

/-- A message may begin an offer or count as heard, but no edit is reported. -/
theorem handleMessage (h : BetweenCalls p w t) {depth : Nat} {sender : PeerId} {payload : Bytes}
    {result : Except ShareError Unit}
    (hrun : w.handleMessage (World.write depth) p sender payload = .ok (result, w')) :
    Leads p (t.after p w (.handleMessage p sender payload) (.shared result)) w w' := by
  unfold World.handleMessage at hrun
  cases hdecode : Message.decode (w.limits p) payload with
  | error reason =>
      rw [hdecode] at hrun
      cases hrun
      rw [Tally.after_of_quiet rfl rfl rfl]
      exact h.refl
  | ok m =>
      rw [hdecode] at hrun
      cases m with
      | start offer =>
          refine h.handleStart (Except.ok.inj hrun) (fun hidle hok => ?_) fun hbusy => ?_
          · subst hok
            exact Tally.after_of_begins (by simp [World.begins, hdecode, hidle])
          · refine Tally.after_of_quiet ?_ rfl ?_
            · cases result <;> simp [World.begins, hdecode, hbusy]
            · cases result <;> simp [World.hears, hdecode]
      | update u =>
          refine h.handleUpdate hrun (fun hother hok => ?_) fun hother => ?_
          · subst hok
            simp [Tally.after, World.begins, World.hostEdit?, World.hears, hdecode, hother]
          · refine Tally.after_of_quiet ?_ rfl ?_
            · cases result <;> simp [World.begins, hdecode]
            · cases result <;> simp [World.hears, hdecode, hother]
      | stop =>
          cases hrun
          rw [Tally.after_of_quiet (by simp [World.begins, hdecode]) rfl
            (by simp [World.hears, hdecode])]
          exact h.of_endRun (.handleStop ..)

/-- After a call that takes no arrivals off a queue the tally is the next one, and the call has
reported the edit that the host made with it, if it did. -/
theorem perform (h : BetweenCalls p w t) {depth : Nat} {c : Call} (htaker : c.taker? = none)
    (hallows : w.Allows p c) {o : Outcome}
    (hrun : World.perform (World.write depth) c w = .ok (o, w')) : Accounts p t c o w w' := by
  have harises : w'.Arises := h.arises.worldSteps (worldSteps_perform hrun)
  cases c with
  | edit d e =>
      obtain ⟨⟨result, w₁⟩, hwritten, hrun⟩ := bind_eq_ok_iff.1 hrun
      cases hrun
      obtain ⟨hnone, hsome⟩ := h.edit hwritten
      cases hedit : w.hostEdit? p (.edit d e) (.edited result) with
      | none => exact .of_quiet harises rfl hedit rfl (hnone hedit)
      | some e' =>
          obtain ⟨peer, hpeer, hreported, hpassive, htallied⟩ := hsome e' hedit
          have hafter : t.after p w (.edit d e) (.edited result) =
              { t with edits := t.edits ++ [e'] } := by
            simp [Tally.after, World.begins, World.hears, hedit]
          refine ⟨⟨harises, hpassive, hafter ▸ htallied⟩, fun hnone => ?_, fun e he => ?_⟩
          · rw [hedit] at hnone
            cases hnone
          · cases hedit.symm.trans he
            exact ⟨peer, hpeer, hreported⟩
  | disconnect peer =>
      cases hrun
      have hapart := Apart.disconnect w peer
      exact .of_quiet harises rfl rfl rfl ⟨.of_apart hapart, hapart.passive h.passive,
        h.tallied.congr (hapart.phase_eq p) hapart.captures_eq⟩
  | start q our name other fileName d =>
      obtain rfl := hallows.party q rfl
      cases hrun
      obtain ⟨⟨reason, hresult⟩, hsame⟩ | ⟨hresult, -, hbegun, -⟩ :=
        h.start (hallows.spares d rfl rfl) rfl
      · rw [hresult]
        exact .of_quiet harises rfl rfl rfl hsame
      · rw [hresult]
        exact .of_leads harises rfl hbegun
  | accept q d =>
      obtain rfl := hallows.party q rfl
      obtain ⟨⟨result, w₁⟩, haccept, hrun⟩ := bind_eq_ok_iff.1 hrun
      cases hrun
      exact .of_quiet harises rfl rfl rfl (h.accept (hallows.spares d rfl rfl) haccept)
  | decline q =>
      obtain rfl := hallows.party q rfl
      cases hrun
      exact .of_quiet harises rfl rfl rfl (h.of_endRun (.decline ..))
  | stop q =>
      obtain rfl := hallows.party q rfl
      cases hrun
      exact .of_quiet harises rfl rfl rfl (h.of_endRun (.stop ..))
  | handleMessage q sender payload =>
      obtain rfl := hallows.party q rfl
      obtain ⟨⟨result, w₁⟩, hmessage, hrun⟩ := bind_eq_ok_iff.1 hrun
      cases hrun
      exact .of_leads harises rfl (h.handleMessage hmessage)
  | handleDisconnect q peer =>
      obtain rfl := hallows.party q rfl
      cases hrun
      exact .of_quiet harises rfl rfl rfl (h.of_endRun (.handleDisconnect ..))
  | pump | handleNext | serve => cases htaker

end BetweenCalls

end PairEdit.Session
