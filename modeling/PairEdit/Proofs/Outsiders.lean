import PairEdit.Proofs.LogOffsets

/-!
# Peers outside the session

While a party has a session or an offer, what arrives from a peer other than the one it has it
with does nothing, apart from one event and one stop for each offer that is properly addressed:
the host is told that it was refused, and its sender is told to stop.
-/

namespace PairEdit

/-- The peer that an arrival comes from, or tells of. -/
def Arrival.source : Arrival → PeerId
  | .message sender _ => sender
  | .disconnected peer => peer

/-- The call of a host that hands an arrival to the party itself. -/
def Arrival.call (p : Nat) : Arrival → Session.Call
  | .message sender payload => .handleMessage p sender payload
  | .disconnected peer => .handleDisconnect p peer

namespace Session

/-! ## Refused offers -/

/-- An offer that was refused. -/
structure Refusal where
  sender : PeerId
  /-- The endpoint where the stop for it arrived, if it could be sent. -/
  target : Option Nat
deriving DecidableEq

/-- What the host is told about a refused offer. -/
def Refusal.event (r : Refusal) : Event := .refused r.sender

/-- The stops that arrived at an endpoint from a peer that refused offers. -/
def stopsAt (our : PeerId) (refusals : List Refusal) (id : Nat) : List Arrival :=
  (refusals.filter fun r => r.target == some id).map fun _ => .message our Message.stop.payload

namespace World

/-- The offers that a party refuses on an arrival when it is not idle: those made by their
sender, and to this party. -/
def refusals (w : World) (p : Nat) : Arrival → List Refusal
  | .message sender payload =>
      match Message.decode (w.limits p) payload with
      | .ok (.start offer) =>
          if offer.senderId = sender ∧ offer.receiverId = w.identity p then
            [⟨sender, w.sendTarget p sender .stop⟩]
          else []
      | _ => []
  | .disconnected _ => []

/-- Tell the host that an offer is refused, and its sender to stop. -/
def refuse (w : World) (p : Nat) (sender : PeerId) : World :=
  ((w.emit p (.refused sender)).send p sender .stop).2

variable {w : World} {p : Nat} {peer : PeerId}

theorem sendTarget_emit (w : World) (p : Nat) (event : Event) (peer : PeerId) (m : Message) :
    (w.emit p event).sendTarget p peer m = w.sendTarget p peer m := by
  have hlimits : (w.emit p event).limits p = w.limits p := by simp [limits, emit]
  have hidentity : (w.emit p event).identity p = w.identity p := by simp [identity, emit]
  exact sendTarget_congr (network_emit w p event) hlimits hidentity peer m

/-- To refuse an offer changes nothing but events and arrivals. -/
theorem refuse_eq (w : World) (p : Nat) (sender : PeerId) :
    ∃ network, w.refuse p sender = { w.emit p (.refused sender) with network := network } := by
  rw [refuse, send_snd]
  split
  · exact ⟨_, rfl⟩
  · exact ⟨_, rfl⟩

/-- To refuse an offer tells the host. -/
theorem party_refuse (w : World) (p : Nat) (sender : PeerId) (q : Nat) :
    (w.refuse p sender).party q = { w.party q with
      events := (w.party q).events ++ if q = p then [.refused sender] else [] } := by
  rw [refuse, party_send, emit]
  by_cases hq : q = p
  · subst hq
    simp
  · simp [hq, party_modifyParty_of_ne]

/-- To refuse an offer sends one stop, if it can be sent, and nothing else. -/
theorem endpoint_refuse (w : World) (p : Nat) (sender : PeerId) (id : Nat) :
    (w.refuse p sender).network.endpoint id = { w.network.endpoint id with
      queue := (w.network.endpoint id).queue ++ if w.sendTarget p sender .stop = some id then
        [.message (w.identity p) Message.stop.payload] else [] } := by
  have hidentity : (w.emit p (.refused sender)).identity p = w.identity p := by
    simp [identity, emit]
  rw [refuse, endpoint_send, sendTarget_emit, hidentity, network_emit]

theorem length_refuse (w : World) (p : Nat) (sender : PeerId) :
    (w.refuse p sender).network.endpoints.slots.length = w.network.endpoints.slots.length := by
  rw [refuse, send_snd, sendTarget_emit]
  cases htarget : w.sendTarget p sender .stop with
  | none => rfl
  | some target =>
      have hlt := (of_sendTarget htarget).1
      simp only [deliver, Network.modify, network_emit, Table.length_modify]
      omega

theorem lt_length_of_other (h : (w.phase p).other = some peer) : p < w.parties.slots.length := by
  refine Nat.lt_of_not_le fun hle => ?_
  have hdefault : w.party p = default := by
    rw [party, Table.get, List.getElem?_eq_none hle]
    rfl
  rw [World.phase, hdefault] at h
  cases h

theorem setPhase_phase (hp : p < w.parties.slots.length) : w.setPhase p (w.phase p) = w := by
  have hparties : w.parties.set p (w.parties.get p) = w.parties := by
    refine Table.ext_get ?_ fun q => ?_
    · simp [Table.set, hp]
    · rw [Table.get_set]
      split
      · next h => rw [h]
      · rfl
  exact congrArg (fun parties => { w with parties := parties }) hparties

theorem receive?_of_other {limits : Limits} {sender : PeerId} {u : Update} {len : Nat}
    {phase : Phase} (hother : phase.other = some peer) (hne : sender ≠ peer) :
    phase.receive? limits sender u len = some (.outsider, phase) := by
  cases phase with
  | idle => cases hother
  | offered o => exact if_pos fun h => hne (h.symm.trans (Option.some.inj hother))
  | live l => exact if_pos fun h => hne (h.symm.trans (Option.some.inj hother))

/-- What an offer from another peer comes to in a party that is not idle. -/
theorem handleStart_of_other (hother : (w.phase p).other = some peer) (sender : PeerId)
    (offer : Start) : (w.handleStart p sender offer).2 =
      if offer.senderId = sender ∧ offer.receiverId = w.identity p then w.refuse p sender
      else w := by
  obtain ⟨hnot, reason, heq⟩ | ⟨hsender, hreceiver, ⟨hidle, -⟩ | ⟨-, heq⟩⟩ :=
    w.handleStart_cases p sender offer
  · rw [heq, if_neg hnot]
  · rw [hidle] at hother
    cases hother
  · rw [heq, if_pos ⟨hsender, hreceiver⟩]
    rfl

/-- On an arrival at most one offer is refused, that of the peer it comes from. -/
theorem refusals_eq (w : World) (p : Nat) (a : Arrival) :
    w.refusals p a = [] ∨ w.refusals p a = [⟨a.source, w.sendTarget p a.source .stop⟩] := by
  cases a with
  | message sender payload =>
      simp only [refusals]
      split
      · split
        · exact .inr rfl
        · exact .inl rfl
      · exact .inl rfl
  | disconnected gone => exact .inl rfl

/-- What an update from another peer comes to. -/
theorem handleUpdate_of_other (write : Writer) (hother : (w.phase p).other = some peer)
    (hfree : (w.party p).writing = false) {sender : PeerId} (hne : sender ≠ peer) (u : Update) :
    w.handleUpdate write p sender u = .ok (.error (.protocol sender .outsider), w) := by
  have hsame := setPhase_phase (lt_length_of_other hother)
  simp only [handleUpdate, hfree, receive?_of_other hother hne, orOverflow]
  exact congrArg (fun w => Except.ok (_, w)) hsame

/-- A message of another peer does nothing but refuse offers. -/
theorem handleMessage_of_other (write : Writer) (hother : (w.phase p).other = some peer)
    (hfree : (w.party p).writing = false) {sender : PeerId} (hne : sender ≠ peer)
    (payload : Bytes) :
    ∃ result, w.handleMessage write p sender payload = .ok (result,
      (w.refusals p (.message sender payload)).foldl (fun w r => w.refuse p r.sender) w) := by
  simp only [handleMessage, refusals]
  cases Message.decode (w.limits p) payload with
  | error reason => exact ⟨_, rfl⟩
  | ok m =>
      cases m with
      | start offer =>
          refine ⟨(w.handleStart p sender offer).1, ?_⟩
          have hstart := handleStart_of_other hother sender offer
          dsimp only
          by_cases h : offer.senderId = sender ∧ offer.receiverId = w.identity p
          · rw [if_pos h] at hstart ⊢
            exact congrArg Except.ok (Prod.ext rfl hstart)
          · rw [if_neg h] at hstart ⊢
            exact congrArg Except.ok (Prod.ext rfl hstart)
      | update u => exact ⟨_, handleUpdate_of_other write hother hfree hne u⟩
      | stop =>
          simp only [handleStop]
          rw [if_neg fun h => hne (Option.some.inj (h.symm.trans hother))]
          exact ⟨_, rfl⟩

/-- An arrival of another peer does nothing but refuse offers. -/
theorem handleArrival_of_other (write : Writer) (hother : (w.phase p).other = some peer)
    (hfree : (w.party p).writing = false) {a : Arrival} (hsource : a.source ≠ peer) :
    ∃ result, w.handleArrival write p a =
      .ok (result, (w.refusals p a).foldl (fun w r => w.refuse p r.sender) w) := by
  cases a with
  | message sender payload => exact handleMessage_of_other write hother hfree hsource payload
  | disconnected gone =>
      refine ⟨.ok (), ?_⟩
      rw [handleArrival, handleDisconnect,
        if_neg fun h => hsource (Option.some.inj (h.symm.trans hother))]
      rfl

/-- A call that hands an arrival to the party comes to the same as the arrival. -/
theorem run_call {result : Except ShareError Unit} {w' : World} {a : Arrival}
    (h : w.handleArrival (World.write w.pendingReactions) p a = .ok (result, w')) :
    ∃ outcome, w.run (a.call p) = .ok (outcome, w') := by
  cases a with
  | message sender payload =>
      have hmessage : w.handleMessage (World.write w.pendingReactions) p sender payload =
        .ok (result, w') := h
      exact ⟨.shared result, by rw [run, Arrival.call, perform, hmessage]; rfl⟩
  | disconnected gone =>
      cases h
      exact ⟨.done, rfl⟩

end World

end Session

end PairEdit
