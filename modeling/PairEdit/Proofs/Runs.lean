import PairEdit.Session.Pair
import PairEdit.Session.World.Lemmas

/-!
# What the functions of a party come to

Each function that a call leads to comes to one of a few things, depending on what it finds.
`EndRun`, `CaptureRun`, `AcceptRun`, `UpdateRun`, `MessageRun` and `HookRun` list them, each with
what was found.  Whatever is said about all calls goes by their cases, and does not look into the
functions again.
-/

namespace PairEdit.Session

/-! ## What an update calls for -/

/-- What a party in a phase makes of an update, and the phase it is in then. -/
inductive Reception (limits : Limits) (sender : PeerId) (u : Update) (len : Nat) :
    Phase → Incoming → Phase → Prop where
  | ignored : Reception limits sender u len .idle .ignored .idle
  | outsider (phase : Phase) (hidle : phase ≠ .idle) (hother : phase.other ≠ some sender) :
      Reception limits sender u len phase .outsider phase
  | buffered (o : Offered) (text : Text) (n : Nat) (hother : o.participants.initiator = sender)
      (habsorb : o.absorb? limits u.edit =
        some (.ok (), { o with buffer := text, buffered := n })) :
      Reception limits sender u len (.offered o) .buffered
        (.offered { o with buffer := text, buffered := n })
  | endOffer (o : Offered) (text : Text) (n : Nat) (reason : ShareError)
      (hother : o.participants.initiator = sender)
      (habsorb : o.absorb? limits u.edit =
        some (.error reason, { o with buffer := text, buffered := n })) :
      Reception limits sender u len (.offered o) (.endOffer reason)
        (.offered { o with buffer := text, buffered := n })
  | endSession (l : Live) (s : Strategy) (reason : EditError)
      (hother : l.participants.other = sender)
      (hadmitted : l.admit? u len = some (.error reason, { l with strategy := s })) :
      Reception limits sender u len (.live l) (.endSession l.epoch reason)
        (.live { l with strategy := s })
  | write (l : Live) (s : Strategy) (e : Edit) (hother : l.participants.other = sender)
      (hadmitted : l.admit? u len = some (.ok e, { l with strategy := s })) :
      Reception limits sender u len (.live l)
        (.write l.epoch l.document e l.capture (!l.confirmed))
        (.live { l with strategy := s, confirmed := true, capture := none })

theorem Offered.eq_of_absorb? {limits : Limits} {o o' : Offered} {e : Edit}
    {result : Except ShareError Unit} (h : o.absorb? limits e = some (result, o')) :
    o' = { o with buffer := o'.buffer, buffered := o'.buffered } := by
  obtain ⟨-, -, rfl⟩ | ⟨text, -, -, rfl, -⟩ := absorb?_cases h
  · rfl
  · rfl

/-- An update changes nothing about a session but its strategy; when it is admitted, the
strategy has received it. -/
theorem Live.of_admit? {l l' : Live} {u : Update} {len : Nat} {result : Except EditError Edit}
    (h : l.admit? u len = some (result, l')) :
    ∃ s, l' = { l with strategy := s } ∧
      ∀ e, result = .ok e → l.strategy.receive? u = some (e, s) := by
  obtain ⟨checked, -, h⟩ := Option.bind_eq_some_iff.1 h
  cases checked with
  | error reason =>
      cases h
      exact ⟨l.strategy, rfl, by simp⟩
  | ok _ =>
      obtain ⟨⟨adjusted, s⟩, hreceive, h⟩ := Option.bind_eq_some_iff.1 h
      dsimp only at h
      cases hbounds : adjusted.checkBounds len with
      | error reason =>
          rw [hbounds] at h
          cases h
          exact ⟨s, rfl, by simp⟩
      | ok _ =>
          rw [hbounds] at h
          cases h
          refine ⟨s, rfl, ?_⟩
          rintro _ ⟨⟩
          exact hreceive

theorem Live.receive?_of_admit? {l : Live} {s : Strategy} {u : Update} {len : Nat} {e : Edit}
    (h : l.admit? u len = some (.ok e, { l with strategy := s })) :
    l.strategy.receive? u = some (e, s) := by
  obtain ⟨s', heq, hreceive⟩ := of_admit? h
  obtain rfl : s = s' := congrArg strategy heq
  exact hreceive e rfl

/-- What a party makes of an update is one of the receptions. -/
theorem Reception.of_receive? {limits : Limits} {sender : PeerId} {u : Update} {len : Nat}
    {phase phase' : Phase} {incoming : Incoming}
    (h : phase.receive? limits sender u len = some (incoming, phase')) :
    Reception limits sender u len phase incoming phase' := by
  cases phase with
  | idle =>
      obtain ⟨rfl, rfl⟩ := Prod.mk.injEq .. ▸ Option.some.inj h
      exact .ignored
  | offered o =>
      simp only [Phase.receive?] at h
      split at h
      · next hne =>
          obtain ⟨rfl, rfl⟩ := Prod.mk.injEq .. ▸ Option.some.inj h
          refine .outsider _ (fun hidle => ?_) fun heq => hne (Option.some.inj heq)
          cases hidle
      · next heq =>
          rw [Decidable.not_not] at heq
          simp only [Option.bind_eq_bind, Option.bind_eq_some_iff] at h
          obtain ⟨⟨result, o'⟩, habsorb, h⟩ := h
          have hsame := Offered.eq_of_absorb? habsorb
          rw [hsame] at habsorb
          cases result with
          | error reason =>
              obtain ⟨rfl, rfl⟩ := Prod.mk.injEq .. ▸ Option.some.inj h
              rw [hsame]
              exact .endOffer o _ _ reason heq habsorb
          | ok =>
              obtain ⟨rfl, rfl⟩ := Prod.mk.injEq .. ▸ Option.some.inj h
              rw [hsame]
              exact .buffered o _ _ heq habsorb
  | live l =>
      simp only [Phase.receive?] at h
      split at h
      · next hne =>
          obtain ⟨rfl, rfl⟩ := Prod.mk.injEq .. ▸ Option.some.inj h
          refine .outsider _ (fun hidle => ?_) fun heq => hne (Option.some.inj heq)
          cases hidle
      · next heq =>
          rw [Decidable.not_not] at heq
          simp only [Option.bind_eq_bind, Option.bind_eq_some_iff] at h
          obtain ⟨⟨result, l'⟩, hadmitted, h⟩ := h
          obtain ⟨s, rfl, -⟩ := Live.of_admit? hadmitted
          cases result with
          | error reason =>
              obtain ⟨rfl, rfl⟩ := Prod.mk.injEq .. ▸ Option.some.inj h
              exact .endSession l s reason heq hadmitted
          | ok e =>
              obtain ⟨rfl, rfl⟩ := Prod.mk.injEq .. ▸ Option.some.inj h
              exact .write l s e heq hadmitted

/-! ## Calls that wait -/

/-- The party whose arrivals a call takes. -/
def Call.taker? : Call → Option Nat
  | .pump p => some p
  | .handleNext p => some p
  | .serve p => some p
  | _ => none

/-- The call waits in a hook or in what a listener of the host will do. -/
def World.Waits (w : World) (c : Call) : Prop :=
  (∃ d hook, (w.surfaces.get d).hook = some hook ∧ c ∈ hook.calls) ∨
    ∃ i, ∃ now ∈ w.scripts.get i, c ∈ now

theorem World.Waits.of_le {w w' : World} {c : Call} (h : w'.Waits c)
    (hhook : ∀ d, (w'.surfaces.get d).hook = (w.surfaces.get d).hook ∨
      (w'.surfaces.get d).hook = none)
    (hscript : ∀ i, ∀ now ∈ w'.scripts.get i, now ∈ w.scripts.get i) : w.Waits c := by
  obtain ⟨d, hook, heq, hc⟩ | ⟨i, now, hnow, hc⟩ := h
  · obtain hsame | hnone := hhook d
    · exact .inl ⟨d, hook, hsame ▸ heq, hc⟩
    · rw [hnone] at heq
      cases heq
  · exact .inr ⟨i, now, hscript i now hnow, hc⟩

/-- At first no call waits. -/
theorem World.not_waits_idle (text : Text) (config : Config) (c : Call) :
    ¬ (Pair.idle text config).world.Waits c := by
  rintro (⟨d, hook, hhook, -⟩ | ⟨i, now, hnow, -⟩)
  · rcases d with _ | _ | d <;> cases hhook
  · cases hnow

/-! ## What a single function comes to -/

namespace World

/-- Begin a session as its receiver, who captures nothing yet. -/
def join (w : World) (p d : Nat) (o : Offered) (s : Strategy) : World :=
  let (epoch, w) := w.nextEpoch p
  w.setPhase p (.live ⟨o.participants, epoch, d, none, s, true⟩)

/-- Go on with a session, but capture nothing for now. -/
def suspend (w : World) (p : Nat) (l : Live) (s : Strategy) : World :=
  (w.setPhase p (.live { l with strategy := s, confirmed := true, capture := none })).detach
    (.live l)

/-- To write an edit of the peer, when the capture has been taken off. -/
theorem writeRemote_setPhase (write : Writer) (w : World) (p : Nat) (sender : PeerId) (l : Live)
    (s : Strategy) (e : Edit) (first : Bool) :
    (w.setPhase p (.live { l with strategy := s, confirmed := true, capture := none })).writeRemote
        write p sender l.epoch l.document e l.capture first =
      (do
        let (written, w) ← write l.document e ((w.suspend p l s).setWriting p true)
        let w := w.resume p l.epoch
        match written with
        | .error reason =>
            let w := w.endSession p l.epoch .invalidOperation
            return (.error (.document reason), w.setWriting p false)
        | .ok () =>
            let w := if first then w.emit p (.confirmed sender) else w
            return (.ok (), w.setWriting p false)) := by
  obtain ⟨participants, epoch, document, capture, strategy, confirmed⟩ := l
  cases capture with
  | none => rfl
  | some id => rfl

/-- The session that is made of an offer has counted what the offer took in. -/
theorem exists_join_of_enter {w w' : World} {p d epoch : Nat} {o : Offered}
    (h : w.enter p d o = .ok (epoch, w')) :
    ∃ s, (Strategy.start (w.party p).config.strategy .receiver).skip? o.buffered = some s ∧
      epoch = (w.nextEpoch p).1 ∧ w' = w.join p d o s := by
  have hconfig : ((w.nextEpoch p).2.party p).config = (w.party p).config := by
    rw [nextEpoch, party_modifyParty_self]
  obtain ⟨s, hskip, h⟩ := bind_eq_ok_iff.1 h
  cases h
  rw [orOverflow_eq_ok_iff] at hskip
  exact ⟨s, hconfig ▸ hskip, rfl, rfl⟩

end World

open World

/-- What a party keeps of an offer that was made to it. -/
def Offered.ofStart (offer : Start) : Offered :=
  ⟨⟨offer.receiverId, offer.senderId, offer.receiverId⟩, offer.senderName, offer.fileName,
    offer.documentText, 0⟩

theorem Offered.other_ofStart (offer : Start) :
    (ofStart offer).participants.other = offer.senderId := by
  by_cases heq : offer.receiverId = offer.senderId
  · simp [ofStart, Participants.other, Participants.role, heq]
  · simp [ofStart, Participants.other, Participants.role, heq]

/-- An offer is not what it says it is, or an idle party keeps it and any other party refuses it. -/
theorem World.handleStart_cases (w : World) (p : Nat) (sender : PeerId) (offer : Start) :
    (¬ (offer.senderId = sender ∧ offer.receiverId = w.identity p) ∧
        ∃ reason, w.handleStart p sender offer = (.error (.protocol sender reason), w)) ∨
      offer.senderId = sender ∧ offer.receiverId = w.identity p ∧
        (w.phase p = .idle ∧ w.handleStart p sender offer =
            (.ok (), (w.setPhase p (.offered (.ofStart offer))).emit p
              (.startRequested (Offered.ofStart offer).toOffer)) ∨
          w.phase p ≠ .idle ∧ w.handleStart p sender offer =
            (w.emit p (.refused sender)).send p sender .stop) := by
  by_cases hsender : offer.senderId = sender
  · by_cases hreceiver : offer.receiverId = w.identity p
    · refine .inr ⟨hsender, hreceiver, ?_⟩
      rw [handleStart, if_neg (not_not_intro hsender), if_neg (not_not_intro hreceiver)]
      cases hphase : w.phase p with
      | idle => exact .inl ⟨rfl, rfl⟩
      | offered | live => exact .inr ⟨nofun, rfl⟩
    · refine .inl ⟨fun h => hreceiver h.2, .addressedTo offer.receiverId, ?_⟩
      rw [handleStart, if_neg (not_not_intro hsender), if_pos hreceiver]
  · exact .inl ⟨fun h => hsender h.1, _, if_pos hsender⟩

/-- What a party comes to that ends a session or an offer, if it has one that is to end: it
leaves, its host is told, and so is the peer, unless it is the one that ended it. -/
inductive EndRun (p : Nat) (w : World) : World → Prop where
  | none : EndRun p w w
  | left (peer : PeerId) (reason : EndReason) (hother : (w.phase p).other = some peer) :
      EndRun p w ((w.leave p).emit p (.ended peer reason))
  | told (peer : PeerId) (reason : EndReason) (hother : (w.phase p).other = some peer) :
      EndRun p w (((w.leave p).emit p (.ended peer reason)).send p peer .stop).2

/-- What a session makes of an edit of its document. -/
inductive CaptureRun (p epoch : Nat) (e : Edit) (w : World) : World → Prop where
  | skipped (hskipped : ∀ l, w.phase p = .live l → l.epoch = epoch → e.isNoop = true) :
      CaptureRun p epoch e w w
  | sent (l : Live) (u : Update) (s : Strategy) {v : World} (hlive : w.phase p = .live l)
      (hepoch : l.epoch = epoch) (hnoop : e.isNoop = false)
      (hregister : l.strategy.register? e = some (u, s))
      (hsend : (w.setPhase p (.live { l with strategy := s })).send p l.participants.other
        (.update u) = (.ok (), v)) :
      CaptureRun p epoch e w v
  | unsent (l : Live) (u : Update) (s : Strategy) (reason : ShareError) {v : World}
      (hlive : w.phase p = .live l) (hepoch : l.epoch = epoch) (hnoop : e.isNoop = false)
      (hregister : l.strategy.register? e = some (u, s))
      (hsend : (w.setPhase p (.live { l with strategy := s })).send p l.participants.other
        (.update u) = (.error reason, v)) :
      CaptureRun p epoch e w (v.emit p (.sendFailed l.participants.other reason))

/-- What accepting an offer comes to: there is none, or its text is written, and then the session
is ended or the host is told that it began. -/
inductive AcceptRun (write : Writer) (p d : Nat) (w : World) :
    Except ShareError Unit → World → Prop where
  | none (hnone : ∀ o, w.phase p ≠ .offered o) : AcceptRun write p d w (.error .noPendingOffer) w
  | refused (o : Offered) {epoch : Nat} {reason : DocumentError} {u v : World}
      (hoffered : w.phase p = .offered o)
      (henter : (w.setWriting p true).enter p d o = .ok (epoch, u))
      (hwritten : write d ((u.document d).overwriting o.buffer) u = .ok (.error reason, v)) :
      AcceptRun write p d w (.error (.document reason))
        (((v.resume p epoch).endSession p epoch .invalidOperation).setWriting p false)
  | accepted (o : Offered) {epoch : Nat} {u v : World} (hoffered : w.phase p = .offered o)
      (henter : (w.setWriting p true).enter p d o = .ok (epoch, u))
      (hwritten : write d ((u.document d).overwriting o.buffer) u = .ok (.ok (), v)) :
      AcceptRun write p d w (.ok ())
        (((v.resume p epoch).emit p (.started o.participants.initiator .receiver)).setWriting p
          false)

/-- What an update comes to.  An offer takes it in, or ends; a session writes what it makes of
it, or ends. -/
inductive UpdateRun (write : Writer) (p : Nat) (sender : PeerId) (u : Update) (w : World) :
    Except ShareError Unit → World → Prop where
  | ignored (hidle : w.phase p = .idle) :
      UpdateRun write p sender u w (.ok ()) (w.setPhase p (w.phase p))
  | outsider (hbusy : w.phase p ≠ .idle) (hother : (w.phase p).other ≠ some sender) :
      UpdateRun write p sender u w (.error (.protocol sender .outsider))
        (w.setPhase p (w.phase p))
  | buffered (o : Offered) (text : Text) (n : Nat) (hoffered : w.phase p = .offered o)
      (hother : o.participants.initiator = sender)
      (habsorb : o.absorb? (w.limits p) u.edit =
        some (.ok (), { o with buffer := text, buffered := n })) :
      UpdateRun write p sender u w (.ok ())
        (w.setPhase p (.offered { o with buffer := text, buffered := n }))
  | endOffer (o : Offered) (text : Text) (n : Nat) (reason : ShareError)
      (hoffered : w.phase p = .offered o) (hother : o.participants.initiator = sender)
      (habsorb : o.absorb? (w.limits p) u.edit =
        some (.error reason, { o with buffer := text, buffered := n })) :
      UpdateRun write p sender u w (.error reason)
        ((w.setPhase p (.offered { o with buffer := text, buffered := n })).endOffer p sender
          .invalidOperation)
  | endSession (l : Live) (s : Strategy) (reason : EditError) (hlive : w.phase p = .live l)
      (hother : l.participants.other = sender)
      (hadmitted : l.admit? u (w.document l.document).length =
        some (.error reason, { l with strategy := s })) :
      UpdateRun write p sender u w (.error (.invalidOperation reason))
        ((w.setPhase p (.live { l with strategy := s })).endSession p l.epoch .invalidOperation)
  | refused (l : Live) (s : Strategy) (e : Edit) {reason : DocumentError} {v : World}
      (hlive : w.phase p = .live l) (hother : l.participants.other = sender)
      (hadmitted : l.admit? u (w.document l.document).length =
        some (.ok e, { l with strategy := s }))
      (hwritten : write l.document e ((w.suspend p l s).setWriting p true) =
        .ok (.error reason, v)) :
      UpdateRun write p sender u w (.error (.document reason))
        (((v.resume p l.epoch).endSession p l.epoch .invalidOperation).setWriting p false)
  | written (l : Live) (s : Strategy) (e : Edit) {v : World}
      (hlive : w.phase p = .live l) (hother : l.participants.other = sender)
      (hadmitted : l.admit? u (w.document l.document).length =
        some (.ok e, { l with strategy := s }))
      (hwritten : write l.document e ((w.suspend p l s).setWriting p true) = .ok (.ok (), v)) :
      UpdateRun write p sender u w (.ok ())
        ((if l.confirmed then v.resume p l.epoch
          else (v.resume p l.epoch).emit p (.confirmed sender)).setWriting p false)

/-- What a message comes to. -/
inductive MessageRun (write : Writer) (p : Nat) (sender : PeerId) (payload : Bytes) (w : World) :
    Except ShareError Unit → World → Prop where
  | unreadable {reason : SyncError}
      (hdecode : Message.decode (w.limits p) payload = .error reason) :
      MessageRun write p sender payload w (.error (.sync reason)) w
  | start {offer : Start} (hdecode : Message.decode (w.limits p) payload = .ok (.start offer)) :
      MessageRun write p sender payload w (w.handleStart p sender offer).1
        (w.handleStart p sender offer).2
  | update {u : Update} {result : Except ShareError Unit} {w' : World}
      (hdecode : Message.decode (w.limits p) payload = .ok (.update u))
      (hupdate : w.handleUpdate write p sender u = .ok (result, w')) :
      MessageRun write p sender payload w result w'
  | stop (hdecode : Message.decode (w.limits p) payload = .ok .stop) :
      MessageRun write p sender payload w (.ok ()) (w.handleStop p sender)

section Runs

variable {write : Writer} {caller : Caller} {w w' : World} {p d : Nat} {sender : PeerId}
variable {result : Except ShareError Unit}

namespace EndRun

theorem endSession (w : World) (p epoch : Nat) (reason : EndReason) :
    EndRun p w (w.endSession p epoch reason) := by
  unfold World.endSession
  split
  · next l hlive =>
      split
      · exact .told _ reason (by rw [hlive]; rfl)
      · exact .none
  · exact .none

theorem endOffer (w : World) (p : Nat) (initiator : PeerId) (reason : EndReason) :
    EndRun p w (w.endOffer p initiator reason) := by
  unfold World.endOffer
  split
  · next o hoffered =>
      split
      · next heq => exact .told _ reason (by rw [hoffered, ← heq]; rfl)
      · exact .none
  · exact .none

theorem stop (w : World) (p : Nat) : EndRun p w (w.stop p).2 := by
  unfold World.stop
  cases hphase : w.phase p with
  | idle => exact .none
  | offered | live => exact .told _ _ (by rw [hphase]; rfl)

theorem decline (w : World) (p : Nat) : EndRun p w (w.decline p).2 := by
  unfold World.decline
  cases hphase : w.phase p with
  | offered => exact .told _ _ (by rw [hphase]; rfl)
  | idle | live => exact .none

theorem handleStop (w : World) (p : Nat) (sender : PeerId) :
    EndRun p w (w.handleStop p sender) := by
  unfold World.handleStop
  split
  · next hother => exact .left sender _ hother
  · exact .none

theorem handleDisconnect (w : World) (p : Nat) (peer : PeerId) :
    EndRun p w (w.handleDisconnect p peer) := by
  unfold World.handleDisconnect
  split
  · next hother =>
      dsimp only
      split
      · exact .told peer _ hother
      · exact .left peer _ hother
  · exact .none

end EndRun

theorem CaptureRun.of_capture {epoch : Nat} {e : Edit} (h : w.capture p epoch e = .ok w') :
    CaptureRun p epoch e w w' := by
  unfold World.capture at h
  cases hphase : w.phase p with
  | idle | offered =>
      rw [hphase] at h
      cases h
      exact .skipped fun l hlive => by cases hphase.symm.trans hlive
  | live l =>
      simp only [hphase] at h
      split at h
      · next hskipped =>
          cases h
          refine .skipped fun l' hlive hepoch => ?_
          cases hphase.symm.trans hlive
          exact hskipped.resolve_left (not_not_intro hepoch)
      · next hkept =>
          obtain ⟨hepoch, hnoop⟩ := not_or.1 hkept
          obtain ⟨⟨u, s⟩, hregister, h⟩ := bind_eq_ok_iff.1 h
          rw [orOverflow_eq_ok_iff] at hregister
          rw [Decidable.not_not] at hepoch
          rw [Bool.not_eq_true] at hnoop
          generalize hsend : World.send _ p _ _ = r at h
          obtain ⟨sent, v⟩ := r
          cases sent with
          | error reason =>
              cases h
              exact .unsent l u s reason hphase hepoch hnoop hregister hsend
          | ok =>
              cases h
              exact .sent l u s hphase hepoch hnoop hregister hsend

/-- A party that accepts writes nothing else, and does one of these. -/
theorem AcceptRun.of_accept (h : w.accept write p d = .ok (result, w')) :
    (w.party p).writing = false ∧ AcceptRun write p d w result w' := by
  unfold World.accept at h
  split at h
  · cases h
  · next hfree =>
      refine ⟨Bool.eq_false_iff.2 hfree, ?_⟩
      cases hphase : w.phase p with
      | idle | live =>
          simp only [hphase] at h
          cases h
          exact .none fun o hoffered => by cases hphase.symm.trans hoffered
      | offered o =>
          simp only [hphase] at h
          obtain ⟨⟨epoch, u⟩, henter, h⟩ := bind_eq_ok_iff.1 h
          obtain ⟨⟨written, v⟩, hwritten, h⟩ := bind_eq_ok_iff.1 h
          cases written with
          | error reason =>
              cases h
              exact .refused o hphase henter hwritten
          | ok =>
              cases h
              exact .accepted o hphase henter hwritten

/-- A party that takes in an update writes nothing else, and does one of these. -/
theorem UpdateRun.of_handleUpdate {u : Update}
    (h : w.handleUpdate write p sender u = .ok (result, w')) :
    (w.party p).writing = false ∧ UpdateRun write p sender u w result w' := by
  unfold World.handleUpdate at h
  split at h
  · cases h
  · next hfree =>
      refine ⟨Bool.eq_false_iff.2 hfree, ?_⟩
      obtain ⟨⟨incoming, phase⟩, hreceive, h⟩ := bind_eq_ok_iff.1 h
      rw [orOverflow_eq_ok_iff] at hreceive
      have hreception := Reception.of_receive? hreceive
      generalize hphase : w.phase p = before at hreception
      cases hreception with
      | ignored =>
          cases h
          exact hphase ▸ .ignored hphase
      | outsider _ hidle hother =>
          cases h
          rw [← hphase] at hidle hother ⊢
          exact .outsider hidle hother
      | buffered o text n hother habsorb =>
          cases h
          exact .buffered o text n hphase hother habsorb
      | endOffer o text n reason hother habsorb =>
          cases h
          exact .endOffer o text n reason hphase hother habsorb
      | endSession l s reason hother hadmitted =>
          cases h
          exact .endSession l s reason hphase hother hadmitted
      | write l s e hother hadmitted =>
          simp only [writeRemote_setPhase] at h
          obtain ⟨⟨written, v⟩, hwritten, h⟩ := bind_eq_ok_iff.1 h
          cases written with
          | error reason =>
              cases h
              exact .refused l s e hphase hother hadmitted hwritten
          | ok =>
              cases h
              have hrun := UpdateRun.written (p := p) l s e hphase hother hadmitted hwritten
              cases hconfirmed : l.confirmed with
              | false => simpa [hconfirmed] using hrun
              | true => simpa [hconfirmed] using hrun

theorem MessageRun.of_handleMessage {payload : Bytes}
    (h : w.handleMessage write p sender payload = .ok (result, w')) :
    MessageRun write p sender payload w result w' := by
  unfold World.handleMessage at h
  cases hdecode : Message.decode (w.limits p) payload with
  | error reason =>
      rw [hdecode] at h
      cases h
      exact .unreadable hdecode
  | ok m =>
      rw [hdecode] at h
      cases m with
      | start offer =>
          obtain ⟨rfl, rfl⟩ := Prod.mk.injEq .. ▸ Except.ok.inj h
          exact .start hdecode
      | update u => exact .update hdecode h
      | stop =>
          cases h
          exact .stop hdecode

/-- The calls that a document makes before an edit, and the world they leave. -/
inductive HookRun (caller : Caller) (d : Nat) (w : World) : World → Prop where
  | none (hhook : (w.surfaces.get d).hook = none) : HookRun caller d w w
  | some {w' : World} (hook : Hook) (hhook : (w.surfaces.get d).hook = some hook)
      (hcalls : makeAll caller hook.calls (w.fire d hook) = .ok w') : HookRun caller d w w'

namespace World

/-- A write begins with what the hook of the document does.  Then the edit is refused, or it is
applied and the listeners are called. -/
theorem exists_commit_of_writeVia {e : Edit} {result : Except DocumentError Unit}
    (h : writeVia caller d e w = .ok (result, w')) :
    ∃ v, HookRun caller d w v ∧ ((∃ reason, result = .error reason) ∧ w' = v ∨
      result = .ok () ∧ ∃ text, e.apply (v.document d).text = .ok text ∧
        Document.notify (notifyOne caller) e (v.document d).listeners
          (v.setDocument d { v.document d with text := text }) = .ok w') := by
  have hcommit : ∀ {v : World}, v.commit caller d e = .ok (result, w') →
      (∃ reason, result = .error reason) ∧ w' = v ∨
        result = .ok () ∧ ∃ text, e.apply (v.document d).text = .ok text ∧
          Document.notify (notifyOne caller) e (v.document d).listeners
            (v.setDocument d { v.document d with text := text }) = .ok w' := by
    intro v hv
    unfold commit Document.replaceIn at hv
    dsimp only at hv
    split at hv
    · cases hv
      exact .inl ⟨⟨_, rfl⟩, rfl⟩
    · next text happly =>
        obtain ⟨w₁, hnotify, hv⟩ := bind_eq_ok_iff.1 hv
        cases hv
        exact .inr ⟨rfl, text, happly, hnotify⟩
  unfold writeVia at h
  split at h
  · next hhook => exact ⟨w, .none hhook, hcommit h⟩
  · next hook hhook =>
      obtain ⟨v, hcalls, h⟩ := bind_eq_ok_iff.1 h
      refine ⟨v, .some hook hhook hcalls, ?_⟩
      split at h
      · cases h
        exact .inl ⟨⟨_, rfl⟩, rfl⟩
      · exact hcommit h

/-- Which text is put in may not matter. -/
theorem exists_hookRun_of_writeVia {e : Edit} {result : Except DocumentError Unit}
    (h : writeVia caller d e w = .ok (result, w')) :
    ∃ v, HookRun caller d w v ∧ ((∃ reason, result = .error reason) ∧ w' = v ∨
      result = .ok () ∧ ∃ text, Document.notify (notifyOne caller) e (v.document d).listeners
        (v.setDocument d { v.document d with text := text }) = .ok w') := by
  obtain ⟨v, hhook, hrefused | ⟨hok, text, -, hnotify⟩⟩ := exists_commit_of_writeVia h
  · exact ⟨v, hhook, .inl hrefused⟩
  · exact ⟨v, hhook, .inr ⟨hok, text, hnotify⟩⟩

/-- What makes the calls of hooks and listeners, reactions being nested so deep at most. -/
def nestedCaller : Nat → Caller
  | 0 => fun _ _ => .error .endless
  | depth + 1 => perform (World.write depth)

theorem write_eq (depth : Nat) : World.write depth = writeVia (nestedCaller depth) := by
  cases depth <;> rfl

end World

end Runs

end PairEdit.Session
