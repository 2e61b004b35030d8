import PairEdit.Proofs.Calls
import PairEdit.Proofs.Joining

/-!
# What the parties do, call by call

The calls of a host and the arrivals that its party handles, each as a change of the
two seats.
-/

namespace PairEdit.Session

open Function

/-- Take in a message. -/
def World.handleLetter (write : Writer) (w : World) (p : Nat) (sender : PeerId) :
    Message → Except Fault (Except ShareError Unit × World)
  | .start offer => .ok (w.handleStart p sender offer)
  | .update u => w.handleUpdate write p sender u
  | .stop => .ok (.ok (), w.handleStop p sender)

namespace Furnished

variable {ids : Nat → PeerId} {config : Config} {seats : Nat → Seat} {w : World}
variable {p q : Nat}

/-! ## Stopping -/

theorem run_stop_of_idle (h : Furnished ids config seats w) (hphase : (seats p).phase = .idle) :
    w.run (.stop p) = .ok (.shared (.ok ()), w) := by
  simp only [World.run, World.perform, World.stop, h.phase_eq, hphase]

theorem run_decline_of_not_offered (h : Furnished ids config seats w)
    (hphase : ∀ o, (seats p).phase ≠ .offered o) :
    w.run (.decline p) = .ok (.shared (.error .noPendingOffer), w) := by
  simp only [World.run, World.perform, World.decline, h.phase_eq]

theorem run_accept_of_not_offered (h : Furnished ids config seats w)
    (hphase : ∀ o, (seats p).phase ≠ .offered o) (hwriting : (seats p).writing = false) (d : Nat) :
    w.run (.accept p d) = .ok (.shared (.error .noPendingOffer), w) := by
  simp only [World.run, World.perform, World.accept, h.phase_eq, h.writing_eq, hwriting]
  rfl

/-- A party with a session or an offer that stops is idle then, and the peer is told. -/
theorem run_stop (h : Furnished ids config seats w) (hids : ids 0 ≠ ids 1) (hp : p < 2)
    (hq : q < 2) (hne : p ≠ q) (htidy : (seats p).Tidy p)
    (hother : (seats p).phase.other = some (ids q)) {payload : Bytes}
    (hstop : Message.stop.encode config.limits = .ok payload) :
    ∃ w' events, w.run (.stop p) = .ok (.shared (.ok ()), w') ∧
      Furnished ids config (update
        (update seats p ((((seats p).setPhase .idle).setCaptures []).setEvents events))
        q ((seats q).setQueue ((seats q).queue ++ [.message (ids p) payload]))) w' := by
  cases hphase : (seats p).phase with
  | idle =>
      rw [hphase] at hother
      cases hother
  | offered o =>
      rw [hphase, Phase.other, Option.some.injEq] at hother
      obtain ⟨w', hsend, hw'⟩ := h.quit hids hp hq hne htidy hstop (.ended (ids q) .declined)
      refine ⟨w', _, ?_, hw'⟩
      simp only [World.run, World.perform, World.stop, h.phase_eq, hphase, hother, hsend]
  | live l =>
      rw [hphase, Phase.other, Option.some.injEq] at hother
      obtain ⟨w', hsend, hw'⟩ := h.quit hids hp hq hne htidy hstop (.ended (ids q) .localStop)
      refine ⟨w', _, ?_, hw'⟩
      simp only [World.run, World.perform, World.stop, h.phase_eq, hphase, hother, hsend]

/-- Refusing an offer is stopping. -/
theorem run_decline_of_offered (h : Furnished ids config seats w) {o : Offered}
    (hphase : (seats p).phase = .offered o) : w.run (.decline p) = w.run (.stop p) := by
  simp only [World.run, World.perform, World.decline, World.stop, h.phase_eq, hphase]

/-! ## Offering and accepting -/

theorem ids_ne (hids : ids 0 ≠ ids 1) (hp : p < 2) (hq : q < 2) (hne : p ≠ q) :
    ids p ≠ ids q := by
  match p, q, hp, hq with
  | 0, 1, _, _ => exact hids
  | 1, 0, _, _ => exact hids.symm
  | 0, 0, _, _ | 1, 1, _, _ => exact absurd rfl hne

/-- A party that offers its document captures edits before the offer is sent. -/
theorem start_of_idle (h : Furnished ids config seats w) (hids : ids 0 ≠ ids 1) (hp : p < 2)
    (hq : q < 2) (hne : p ≠ q) (hstrategy : config.strategy = .backlog)
    (htidy : (seats p).Tidy p) (hphase : (seats p).phase = .idle) (name : Option Text)
    (fileName : Text) :
    ∃ w₁ l id, l.participants = ⟨ids p, ids p, ids q⟩ ∧
      l.strategy = .backlog (.start .initiator) ∧ l.document = p ∧ l.capture = some id ∧
      Furnished ids config (update seats p
        (((seats p).setCaptures [(id, .capture p l.epoch)]).setPhase (.live l))) w₁ ∧
      w.start p (ids p) name (ids q) fileName p =
        match w₁.send p (ids q) (.start
          ⟨ids p, name.getD (ids p).short, ids q, (seats p).text, fileName⟩) with
        | (.error reason, w) =>
            (.error reason, if (w.phase p).isEpoch l.epoch then w.leave p else w)
        | (.ok (), w) => (.ok (), w.emit p (.started (ids q) .initiator)) := by
  let epoch := (w.party p).epochs + 1
  let w₁ := (w.nextEpoch p).2
  let w₂ := (w₁.attach p epoch p).2
  let l : Live := ⟨⟨ids p, ids p, ids q⟩, epoch, p, some (w₁.attach p epoch p).1,
    .start (w₂.party p).config.strategy .initiator, false⟩
  have hattach := (h.nextEpoch p).attach p epoch p
  have hlive := hattach.setPhase p (.live l)
  have hcaptures := htidy.apart (by simp [hphase])
  rw [update_self, update_idem, hcaptures, List.nil_append] at hlive
  have hstrategy' : l.strategy = .backlog (.start .initiator) := by
    have hconfig := (hattach.party p hp).2
    simp only [l, w₂, w₁, hconfig, hstrategy, Strategy.start]
  refine ⟨w₂.setPhase p (.live l), l, (w₁.attach p epoch p).1, rfl, hstrategy', rfl, rfl, hlive, ?_⟩
  rw [World.start, if_neg (ids_ne hids hp hq hne), if_neg (by simp [h.identity_eq hp]),
    h.phase_eq, hphase, ← h.text_eq]
  rfl

/-- A party that offers its document is live at once, or it is idle as before when the
offer does not keep to the limits. -/
theorem run_start (h : Furnished ids config seats w) (hids : ids 0 ≠ ids 1) (hp : p < 2)
    (hq : q < 2) (hne : p ≠ q) (hstrategy : config.strategy = .backlog)
    (htidy : (seats p).Tidy p) (hphase : (seats p).phase = .idle) {name : Option Text}
    {fileName : Text} {outcome : Outcome} {w' : World}
    (hrun : w.run (.start p (ids p) name (ids q) fileName p) = .ok (outcome, w')) :
    ∃ s, s.text = (seats p).text ∧ s.queue = (seats p).queue ∧ s.Tidy p ∧
      ((s.phase = .idle ∧ Furnished ids config (update seats p s) w') ∨
        ∃ l offer payload, s.phase = .live l ∧ l.participants = ⟨ids p, ids p, ids q⟩ ∧
          l.strategy = .backlog (.start .initiator) ∧
          offer.senderId = ids p ∧ offer.receiverId = ids q ∧
          offer.documentText = (seats p).text ∧
          (Message.start offer).encode config.limits = .ok payload ∧
          Furnished ids config (update (update seats p s) q
            ((seats q).setQueue ((seats q).queue ++ [.message (ids p) payload]))) w') := by
  obtain ⟨w₁, l, id, hparticipants, hbacklog, hdocument, hcapture, hw₁, hstart⟩ :=
    h.start_of_idle hids hp hq hne hstrategy htidy hphase name fileName
  let offer : Start := ⟨ids p, name.getD (ids p).short, ids q, (seats p).text, fileName⟩
  have hlive : Seat.Tidy p
      (((seats p).setCaptures [(id, .capture p l.epoch)]).setPhase (.live l)) :=
    .of_live htidy.writing_eq rfl hdocument hcapture rfl
  simp only [World.run, World.perform, hstart] at hrun
  cases hencode : (Message.start offer).encode config.limits with
  | error reason =>
      rw [hw₁.send_of_error hp hencode] at hrun
      have hepoch : (w₁.phase p).isEpoch l.epoch = true := by
        rw [hw₁.phase_eq, update_self]
        exact beq_self_eq_true l.epoch
      dsimp only at hrun
      rw [if_pos hepoch] at hrun
      cases hrun
      have hleave := hw₁.leave hp (by rwa [update_self])
      rw [update_self, update_idem] at hleave
      refine ⟨_, ?_, ?_, ?_, .inl ⟨?_, hleave⟩⟩
      · rfl
      · rfl
      · exact .of_not_live htidy.writing_eq (by simp) rfl
      · rfl
  | ok payload =>
      obtain ⟨w₂, hsend, hw₂⟩ := hw₁.send hids hp hq hencode
      rw [hsend] at hrun
      cases hrun
      have hemit := hw₂.emit p (.started (ids q) .initiator)
      rw [update_of_ne hne, update_self, update_comm hne.symm, update_idem,
        update_of_ne hne.symm] at hemit
      refine ⟨_, ?_, ?_, ?_, .inr ⟨l, offer, payload, ?_, hparticipants, hbacklog, rfl, rfl, rfl,
        hencode, hemit⟩⟩
      · rfl
      · rfl
      · exact hlive.congr rfl rfl rfl
      · rfl

/-- The session of an accepted offer, before the text is written. -/
theorem enter (h : Furnished ids config seats w) (hp : p < 2)
    (hstrategy : config.strategy = .backlog) {o : Offered} {d epoch : Nat} {w' : World}
    (henter : w.enter p d o = .ok (epoch, w')) :
    o.buffered ≤ Word.max ∧ Furnished ids config (update seats p ((seats p).setPhase
      (.live ⟨o.participants, epoch, d, none, .backlog (.joined o.buffered), true⟩))) w' := by
  have hnext := h.nextEpoch p
  obtain ⟨strategy, hskip, henter⟩ := bind_eq_ok_iff.1 henter
  replace hskip : orOverflow ((Strategy.start ((w.nextEpoch p).2.party p).config.strategy
    .receiver).skip? o.buffered) = .ok strategy := hskip
  rw [(hnext.party p hp).2, hstrategy, orOverflow_eq_ok_iff, Strategy.start, Strategy.skip?,
    Option.map_eq_some_iff] at hskip
  obtain ⟨b, hskip, rfl⟩ := hskip
  obtain ⟨hcount, rfl⟩ := Backlog.skip?_start_eq_some_iff.1 hskip
  cases henter
  exact ⟨hcount, hnext.setPhase p _⟩

/-- A party that accepts an offer is live on its document, which holds the offered text,
and it counts the updates that were in it. -/
theorem run_accept (h : Furnished ids config seats w) (hp : p < 2)
    (hstrategy : config.strategy = .backlog) (htidy : (seats p).Tidy p) {o : Offered}
    (hphase : (seats p).phase = .offered o) (hlen : (seats p).text.length ≤ Word.max)
    {outcome : Outcome} {w' : World} (hrun : w.run (.accept p p) = .ok (outcome, w')) :
    ∃ s l, s.phase = .live l ∧ l.participants = o.participants ∧
      l.strategy = .backlog (.joined o.buffered) ∧
      o.buffered ≤ Word.max ∧ s.text = o.buffer ∧ s.queue = (seats p).queue ∧ s.Tidy p ∧
      Furnished ids config (update seats p s) w' := by
  obtain ⟨⟨result, w₀⟩, haccept, hresult⟩ := bind_eq_ok_iff.1 hrun
  cases hresult
  rw [World.accept, h.writing_eq, htidy.writing_eq, if_neg (by simp), h.phase_eq, hphase]
    at haccept
  obtain ⟨⟨epoch, w₁⟩, henter, haccept⟩ := bind_eq_ok_iff.1 haccept
  obtain ⟨hcount, hw₁⟩ := (h.setWriting p true).enter hp hstrategy henter
  rw [update_self, update_idem] at hw₁
  -- Nobody listens to the document while the offered text is written.
  have hoverwrite : (w₁.document p).overwriting o.buffer =
      ⟨0, (seats p).text.length, o.buffer⟩ := by
    rw [Document.overwriting, Document.length, hw₁.text_eq, update_self]
    rfl
  have hcaptures : (seats p).captures = [] := htidy.apart (by simp [hphase])
  have happly : Edit.apply ⟨0, (seats p).text.length, o.buffer⟩ (seats p).text = .ok o.buffer :=
    Edit.apply_overwriting hlen
  obtain ⟨w₂, hwrite, hw₂⟩ := hw₁.write_of_nil hp w.pendingReactions
    (by rw [update_self]; exact hcaptures) (by rw [update_self]; exact happly)
  rw [update_self, update_idem] at hw₂
  obtain ⟨⟨written, w₂'⟩, hwrite', haccept⟩ := bind_eq_ok_iff.1 haccept
  rw [hoverwrite, hwrite] at hwrite'
  cases hwrite'
  obtain ⟨id, hresume⟩ := hw₂.resume (p := p)
    (l := ⟨o.participants, epoch, p, none, .backlog (.joined o.buffered), true⟩)
    (by rw [update_self]; rfl) rfl rfl
  rw [update_self, update_idem] at hresume
  cases haccept
  have hdone := (hresume.emit p (.started o.participants.initiator .receiver)).setWriting p false
  rw [update_self, update_idem, update_self, update_idem] at hdone
  refine ⟨_, ⟨o.participants, epoch, p, some id, .backlog (.joined o.buffered), true⟩,
    ?_, ?_, ?_, hcount, ?_, ?_, ?_, hdone⟩
  · rfl
  · rfl
  · rfl
  · rfl
  · rfl
  · exact .of_live rfl rfl rfl rfl (by simp [hcaptures])

/-! ## Arrivals -/

theorem run_handleNext_of_nil (h : Furnished ids config seats w) (hp : p < 2)
    (hqueue : (seats p).queue = []) : w.run (.handleNext p) = .ok (.next (.ok none), w) := by
  simp only [World.run, World.perform, World.handleNext, h.receive_of_nil hp hqueue]
  rfl

/-- Handling an arrival that can be decoded is handling its message, with one arrival
less in the queue. -/
theorem run_handleNext_of_cons (h : Furnished ids config seats w) (hp : p < 2)
    {sender : PeerId} {payload : Bytes} {rest : List Arrival} {m : Message}
    (hqueue : (seats p).queue = .message sender payload :: rest)
    (hdecode : Message.decode config.limits payload = .ok m) :
    ∃ w₁ depth, Furnished ids config (update seats p ((seats p).setQueue rest)) w₁ ∧
      w.run (.handleNext p) = (w₁.handleLetter (World.write depth) p sender m).map
        fun r => (.next (.ok (some r.1)), r.2) := by
  obtain ⟨w₁, hreceive, hw₁⟩ := h.receive_of_cons hp hqueue
  refine ⟨w₁, w.pendingReactions, hw₁, ?_⟩
  simp only [World.run, World.perform, World.handleNext, hreceive, World.handleArrival,
    World.handleMessage, hw₁.limits_eq hp, hdecode]
  cases m with
  | start offer => rfl
  | stop => rfl
  | update u =>
      simp only [World.handleLetter]
      cases w₁.handleUpdate (World.write w.pendingReactions) p sender u <;> rfl

/-- An idle party keeps an offer that is addressed to it. -/
theorem handleStart_of_idle (h : Furnished ids config seats w) (hp : p < 2) {sender : PeerId}
    {offer : Start} (hphase : (seats p).phase = .idle) (hsender : offer.senderId = sender)
    (hreceiver : offer.receiverId = ids p) :
    ∃ w' events, w.handleStart p sender offer = (.ok (), w') ∧
      Furnished ids config (update seats p
        (((seats p).setPhase (.offered ⟨⟨ids p, sender, ids p⟩, offer.senderName, offer.fileName,
          offer.documentText, 0⟩)).setEvents events)) w' := by
  have hoffered := ((h.setPhase p (.offered ⟨⟨ids p, sender, ids p⟩, offer.senderName,
    offer.fileName, offer.documentText, 0⟩))).emit p (.startRequested ⟨sender, offer.senderName,
      offer.fileName, offer.documentText⟩)
  rw [update_self, update_idem] at hoffered
  refine ⟨_, _, ?_, hoffered⟩
  rw [World.handleStart, if_neg (by simp [hsender]), if_neg (by simp [hreceiver, h.identity_eq hp]),
    h.phase_eq, hphase]
  subst hsender
  rw [← hreceiver]
  rfl

theorem handleStop_of_idle (h : Furnished ids config seats w) (hphase : (seats p).phase = .idle)
    (sender : PeerId) : w.handleStop p sender = w := by
  rw [World.handleStop, h.phase_eq, hphase]
  rfl

/-- A party whose peer has stopped is idle. -/
theorem handleStop (h : Furnished ids config seats w) (hp : p < 2) (htidy : (seats p).Tidy p)
    {sender : PeerId} (hother : (seats p).phase.other = some sender) :
    ∃ events, Furnished ids config (update seats p
      ((((seats p).setPhase .idle).setCaptures []).setEvents events)) (w.handleStop p sender) := by
  have hleave := (h.leave hp htidy).emit p (.ended sender .peerStopped)
  rw [update_self, update_idem] at hleave
  rw [World.handleStop, h.phase_eq, if_pos hother]
  exact ⟨_, hleave⟩

/-! ## Updates -/

/-- An update that a counter has no room for breaks the run off. -/
theorem handleUpdate_of_none (h : Furnished ids config seats w) (hp : p < 2) (write : Writer)
    (htidy : (seats p).Tidy p) (sender : PeerId) (u : Update)
    (hreceive : (seats p).phase.receive? config.limits sender u (seats p).text.length = none) :
    w.handleUpdate write p sender u = .error .overflow := by
  rw [World.handleUpdate, h.writing_eq, htidy.writing_eq, if_neg (by simp), h.phase_eq,
    h.limits_eq hp]
  cases hphase : (seats p).phase with
  | idle =>
      rw [hphase] at hreceive
      cases hreceive
  | offered o =>
      have hlen : (Phase.offered o).receive? config.limits sender u 0 = none := by
        rw [hphase] at hreceive
        exact hreceive
      dsimp only
      rw [hlen]
      rfl
  | live l =>
      have hlength : (w.document l.document).length = (seats p).text.length := by
        rw [(htidy.live l hphase).1, Document.length, h.text_eq]
      rw [hphase] at hreceive
      dsimp only
      rw [hlength, hreceive]
      rfl

theorem handleUpdate_of_idle (h : Furnished ids config seats w) (write : Writer)
    (hwriting : (seats p).writing = false) (hphase : (seats p).phase = .idle) (sender : PeerId)
    (u : Update) :
    ∃ w', w.handleUpdate write p sender u = .ok (.ok (), w') ∧ Furnished ids config seats w' := by
  have hset := h.setPhase p .idle
  have hsame : (seats p).setPhase .idle = seats p := by
    rw [← hphase]
    rfl
  rw [hsame, update_eq_self] at hset
  refine ⟨_, ?_, hset⟩
  rw [World.handleUpdate, h.writing_eq, hwriting, if_neg (by simp), h.phase_eq, hphase]
  rfl

/-- An update to an offer changes the offered text. -/
theorem handleUpdate_of_offered (h : Furnished ids config seats w) (write : Writer)
    (hwriting : (seats p).writing = false) {o o' : Offered} {u : Update}
    (hphase : (seats p).phase = .offered o)
    (habsorb : o.absorb? config.limits u.edit = some (.ok (), o')) (hp : p < 2) :
    ∃ w', w.handleUpdate write p o.participants.initiator u = .ok (.ok (), w') ∧
      Furnished ids config (update seats p ((seats p).setPhase (.offered o'))) w' := by
  refine ⟨_, ?_, h.setPhase p (.offered o')⟩
  rw [World.handleUpdate, h.writing_eq, hwriting, if_neg (by simp), h.phase_eq, hphase,
    h.limits_eq hp]
  simp only [Phase.receive?, ne_eq, not_true_eq_false, if_false, habsorb, bind, Option.bind]
  rfl

/-- A party that cannot go on with an offer drops it, and the peer is told. -/
theorem handleUpdate_of_refused (h : Furnished ids config seats w) (hids : ids 0 ≠ ids 1)
    (hp : p < 2) (hq : q < 2) (hne : p ≠ q) (write : Writer) (htidy : (seats p).Tidy p)
    {o o' : Offered} {u : Update} {reason : ShareError} {payload : Bytes}
    (hphase : (seats p).phase = .offered o) (hinitiator : o.participants.initiator = ids q)
    (hsame : o'.participants = o.participants)
    (habsorb : o.absorb? config.limits u.edit = some (.error reason, o'))
    (hstop : Message.stop.encode config.limits = .ok payload) :
    ∃ w' events, w.handleUpdate write p (ids q) u = .ok (.error reason, w') ∧
      Furnished ids config (update
        (update seats p ((((seats p).setPhase .idle).setCaptures []).setEvents events))
        q ((seats q).setQueue ((seats q).queue ++ [.message (ids p) payload]))) w' := by
  have hset := h.setPhase p (.offered o')
  have hcaptures : (seats p).captures = [] := htidy.apart (by simp [hphase])
  obtain ⟨w', hsend, hw'⟩ := hset.quit hids hp hq hne
    (by rw [update_self]; exact .of_not_live htidy.writing_eq (by simp) hcaptures) hstop
    (.ended (ids q) .invalidOperation)
  rw [update_self, update_idem, update_of_ne hne.symm] at hw'
  refine ⟨w', _, ?_, hw'⟩
  have hend : (w.setPhase p (.offered o')).endOffer p (ids q) .invalidOperation = w' := by
    rw [World.endOffer, hset.phase_eq, update_self, Seat.setPhase_phase]
    dsimp only
    rw [if_pos (by rw [hsame, hinitiator]), hsend]
  rw [World.handleUpdate, h.writing_eq, htidy.writing_eq, if_neg (by simp), h.phase_eq, hphase,
    h.limits_eq hp, ← hend]
  simp only [Phase.receive?, hinitiator, ne_eq, not_true_eq_false, if_false, habsorb, bind,
    Option.bind]
  rfl

/-- An edit of the peer is written while the party does not listen to the document, and
it listens again afterwards. -/
theorem writeRemote (h : Furnished ids config seats w) (hp : p < 2) (depth : Nat) {l : Live}
    {id : Nat} {e : Edit} {text : Text} (sender : PeerId) (first : Bool)
    (hphase : (seats p).phase = .live l) (hdocument : l.document = p)
    (hcapture : l.capture = none) (hcaptures : (seats p).captures = [(id, .capture p l.epoch)])
    (happly : e.apply (seats p).text = .ok text) :
    ∃ w' s id', w.writeRemote (World.write depth) p sender l.epoch l.document e (some id) first =
        .ok (.ok (), w') ∧
      s.phase = .live { l with capture := some id' } ∧ s.text = text ∧
      s.queue = (seats p).queue ∧ s.Tidy p ∧ Furnished ids config (update seats p s) w' := by
  have hempty : ((seats p).captures.filter fun l => l.1 != id) = [] := by simp [hcaptures]
  have hdetached := (h.unlisten p id).setWriting p true
  rw [update_self, update_idem, hempty] at hdetached
  obtain ⟨w₂, hwrite, hw₂⟩ := hdetached.write_of_nil hp depth
    (by rw [update_self]; rfl) (by rw [update_self]; exact happly)
  rw [update_self, update_idem] at hw₂
  obtain ⟨id', hresume⟩ := hw₂.resume (by rw [update_self]; exact hphase) hdocument hcapture
  rw [update_self, update_idem] at hresume
  -- The first edit of the peer says that it has accepted.
  have hconfirmed : ∃ events, Furnished ids config
      (update seats p ((((((((seats p).setCaptures []).setWriting true).setText text).setPhase
        (.live { l with capture := some id' })).setCaptures
          [(id', .capture p l.epoch)]).setEvents events)))
      (if first then (w₂.resume p l.epoch).emit p (.confirmed sender)
        else w₂.resume p l.epoch) := by
    cases first with
    | false => exact ⟨_, hresume⟩
    | true =>
        have hemit := hresume.emit p (.confirmed sender)
        rw [update_self, update_idem] at hemit
        exact ⟨_, hemit⟩
  obtain ⟨events, hconfirmed⟩ := hconfirmed
  have hdone := hconfirmed.setWriting p false
  rw [update_self, update_idem] at hdone
  refine ⟨_, _, id', ?_, ?_, ?_, ?_, ?_, hdone⟩
  · exact bind_eq_ok_iff.2 ⟨_, by rw [hdocument]; exact hwrite, rfl⟩
  · rfl
  · rfl
  · rfl
  · exact .of_live rfl rfl hdocument rfl rfl

/-- An update to a live session changes the document. -/
theorem handleUpdate_of_live (h : Furnished ids config seats w) (hp : p < 2) (depth : Nat)
    (htidy : (seats p).Tidy p) {l : Live} {b b' : Backlog} {u : Update} {e : Edit} {text : Text}
    (hphase : (seats p).phase = .live l) (hstrategy : l.strategy = .backlog b)
    (hcheck : b.check? u (seats p).text.length = some (.ok ()))
    (hreceive : b.receive? u = some (e, b')) (happly : e.apply (seats p).text = .ok text) :
    ∃ w' s l', w.handleUpdate (World.write depth) p l.participants.other u =
        .ok (.ok (), w') ∧
      s.phase = .live l' ∧ l'.participants = l.participants ∧ l'.strategy = .backlog b' ∧
      s.text = text ∧ s.queue = (seats p).queue ∧ s.Tidy p ∧
      Furnished ids config (update seats p s) w' := by
  obtain ⟨hdocument, id, hcapture, hcaptures⟩ := htidy.live l hphase
  let l₁ : Live := { l with strategy := .backlog b', confirmed := true, capture := none }
  have hset := h.setPhase p (.live l₁)
  obtain ⟨w', s, id', hwrite, hs, htext, hqueue, hstidy, hw'⟩ :=
    hset.writeRemote hp depth (l := l₁) l.participants.other (!l.confirmed)
      (by rw [update_self]; rfl) hdocument rfl (by rw [update_self]; exact hcaptures)
      (by rw [update_self]; exact happly)
  rw [update_self] at hqueue
  rw [update_idem] at hw'
  refine ⟨w', s, { l₁ with capture := some id' }, ?_, hs, rfl, rfl, htext, hqueue, hstidy, hw'⟩
  have hlength : (w.document l.document).length = (seats p).text.length := by
    rw [hdocument, Document.length, h.text_eq]
  have hadmit := Replica.admit?_of_receive? (r := ⟨b, (seats p).text⟩) hstrategy hcheck hreceive
    (Edit.checkBounds_of_apply happly)
  have hincoming : (Phase.live l).receive? config.limits l.participants.other u
      (seats p).text.length =
        some (.write l.epoch l.document e (some id) (!l.confirmed), .live l₁) := by
    simp only [Phase.receive?, ne_eq, not_true_eq_false, if_false, hadmit, bind, Option.bind,
      hcapture]
    rfl
  rw [World.handleUpdate, h.writing_eq, htidy.writing_eq, if_neg (by simp), h.phase_eq, hphase,
    h.limits_eq hp]
  dsimp only
  rw [hlength, hincoming]
  exact hwrite

/-! ## Local edits -/

/-- A refused edit changes nothing. -/
theorem run_edit_of_error (h : Furnished ids config seats w) (hp : p < 2) {e : Edit}
    {reason : EditError} (happly : e.apply (seats p).text = .error reason) :
    w.run (.edit p e) = .ok (.edited (.error (.invalidEdit reason)), w) := by
  simp only [World.run, World.perform]
  rw [h.write_of_error hp w.pendingReactions happly]
  rfl

/-- Without a session an edit only changes the text. -/
theorem run_edit_of_not_live (h : Furnished ids config seats w) (hp : p < 2)
    (htidy : (seats p).Tidy p) (hphase : ∀ l, (seats p).phase ≠ .live l) {e : Edit} {text : Text}
    (happly : e.apply (seats p).text = .ok text) :
    ∃ w', w.run (.edit p e) = .ok (.edited (.ok ()), w') ∧
      Furnished ids config (update seats p ((seats p).setText text)) w' := by
  obtain ⟨w', hwrite, hw'⟩ := h.write_of_nil hp w.pendingReactions (htidy.apart hphase) happly
  refine ⟨w', ?_, hw'⟩
  simp only [World.run, World.perform]
  rw [hwrite]
  rfl

/-- In a session an edit changes the text, and unless it changes nothing it is
registered, and sent or reported as not sent. -/
theorem run_edit_of_live (h : Furnished ids config seats w) (hids : ids 0 ≠ ids 1) (hp : p < 2)
    (hq : q < 2) (hne : p ≠ q) (htidy : (seats p).Tidy p) {l : Live} {b : Backlog} {e : Edit}
    {text : Text} {outcome : Outcome} {w' : World} (hphase : (seats p).phase = .live l)
    (hstrategy : l.strategy = .backlog b) (hother : l.participants.other = ids q)
    (happly : e.apply (seats p).text = .ok text)
    (hrun : w.run (.edit p e) = .ok (outcome, w')) :
    e.isNoop = true ∧ Furnished ids config (update seats p ((seats p).setText text)) w' ∨
    ∃ u b', b.register? e = some (u, b') ∧
      ((∃ payload, (Message.update u).encode config.limits = .ok payload ∧
          Furnished ids config (update (update seats p (((seats p).setText text).setPhase
              (.live { l with strategy := .backlog b' })))
            q ((seats q).setQueue ((seats q).queue ++ [.message (ids p) payload]))) w') ∨
        ∃ s reason, .sendFailed (ids q) reason ∈ s.events ∧
          Furnished ids config (update seats p s) w') := by
  obtain ⟨⟨result, w''⟩, hwrite, hrun⟩ := bind_eq_ok_iff.1 hrun
  cases hrun
  obtain ⟨hdocument, id, -, hcaptures⟩ := htidy.live l hphase
  obtain ⟨w₁, w₂, hw₁, hcapture, hw₂⟩ := h.write_of_capture hp hcaptures happly hwrite
  have hphase₁ : (update seats p ((seats p).setText text) p).phase = .live l := by
    rw [update_self]
    exact hphase
  rcases hw₁.capture hids hp hq hne hphase₁ hstrategy hother hcapture with
    ⟨hnoop, hkept⟩ | ⟨u, b', hregister, ⟨payload, hencode, hsent⟩ | ⟨s, reason, hs, hfailed⟩⟩
  · exact .inl ⟨hnoop, hw₂ _ hkept⟩
  · rw [update_self, update_idem, update_of_ne hne.symm] at hsent
    exact .inr ⟨u, b', hregister, .inl ⟨payload, hencode, hw₂ _ hsent⟩⟩
  · rw [update_idem] at hfailed
    exact .inr ⟨u, b', hregister, .inr ⟨s, reason, by simp [hs], hw₂ _ hfailed⟩⟩

end Furnished

end PairEdit.Session
