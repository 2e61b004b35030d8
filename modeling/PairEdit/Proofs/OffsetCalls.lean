import PairEdit.Proofs.Offsets

/-!
# Calls in worlds with an offset

Every call comes to the same with an offset and without it, and leaves worlds that differ by the
same offset, as long as the parties that take arrivals have none in it.  Calls that are made in
reaction are no exception: that is carried by an induction on how deep reactions are nested, and
each call is only looked at once, with writing as a parameter.
-/

namespace PairEdit.Session

namespace Offset

variable {x : Offset} {takes : Nat → Prop} {w w' : World} {p d epoch : Nat}

namespace Follows

variable (h : x.Follows takes w w')
include h

/-! ## Letting go -/

theorem forgetDocument : x.Follows takes (w.forgetDocument d) (w'.forgetDocument d) := by
  rw [World.forgetDocument, World.forgetDocument, h.holdsDocument_eq]
  split
  · exact h
  · exact h.unhook

theorem forgetParty : x.Follows takes (w.forgetParty p) (w'.forgetParty p) := by
  rw [World.forgetParty, World.forgetParty, h.holdsParty_eq]
  split
  · exact h
  · have hvacate := h.vacate (p := p)
    have hendpoint : ((w'.vacate p).party p).endpoint = ((w.vacate p).party p).endpoint := by
      rw [hvacate.party_eq]
      rfl
    simp only [hendpoint]
    exact hvacate.modifyEndpoint fun _ => rfl

omit h in
theorem foldl (op : World → Nat → World) (hop : ∀ {w w'} i, x.Follows takes w w' →
    x.Follows takes (op w i) (op w' i)) (indices : List Nat) (h : x.Follows takes w w') :
    x.Follows takes (indices.foldl op w) (indices.foldl op w') := by
  induction indices generalizing w w' with
  | nil => exact h
  | cons i rest ih => exact ih (hop i h)

theorem parties_length_eq : w'.parties.slots.length = w.parties.slots.length := by
  rw [h.eq]
  exact Table.length_adjust ..

theorem surfaces_length_eq : w'.surfaces.slots.length = w.surfaces.slots.length := by
  rw [h.eq]
  exact Table.length_adjust ..

theorem sweep : x.Follows takes w.sweep w'.sweep := by
  rw [World.sweep, World.sweep, Table.indices, Table.indices, Table.indices, Table.indices,
    h.parties_length_eq, h.surfaces_length_eq]
  exact foldl World.forgetParty (fun _ h => h.forgetParty) _
    (foldl World.forgetDocument (fun _ h => h.forgetDocument) _ h)

theorem sweeps (n : Nat) : x.Follows takes (World.sweeps n w) (World.sweeps n w') := by
  induction n generalizing w w' with
  | zero => exact h
  | succ n ih => exact ih h.sweep

theorem collect : x.Follows takes w.collect w'.collect := by
  rw [World.collect, World.collect, h.parties_length_eq, h.surfaces_length_eq]
  exact h.sweeps _

theorem callDone : x.Follows takes w.callDone w'.callDone := by
  obtain ⟨rfl, hfits⟩ := h
  have hdone : x.Follows takes { w with underway := w.underway.tail }
      { x.on w with underway := w.underway.tail } :=
    of_eq ⟨rfl, hfits⟩ rfl rfl rfl fun _ hc => hc
  exact hdone.collect

theorem leave : x.Follows takes (w.leave p) (w'.leave p) := by
  rw [World.leave, World.leave, h.phase_eq, document_onPhase]
  split
  · rw [h.released_eq]
    split
    · exact h.vacate.collect
    · exact h.vacate
  · exact h.vacate

/-! ## Calls that write nothing -/

/-- To leave, to tell the host that the session ended, and to tell the peer. -/
theorem farewell (other : PeerId) (reason : EndReason) :
    Answers takes x Eq (((w.leave p).emit p (.ended other reason)).send p other .stop)
      (((w'.leave p).emit p (.ended other reason)).send p other .stop) :=
  (h.leave.emit _).send ..

omit h in
theorem of_answers {α : Type} {R : α → α → Prop} {r r' : α × World} (h : Answers takes x R r r') :
    x.Follows takes r.2 r'.2 := by
  obtain ⟨-, h⟩ := h
  exact h

theorem endSession (epoch : Nat) (reason : EndReason) :
    x.Follows takes (w.endSession p epoch reason)
      (w'.endSession p (x.epochs p + epoch) reason) := by
  rw [World.endSession, World.endSession, h.phase_eq]
  cases w.phase p with
  | idle => exact h
  | offered o => exact h
  | live l =>
      simp only [onPhase, onLive, Nat.add_left_cancel_iff]
      split
      · exact of_answers (h.farewell ..)
      · exact h

theorem endOffer (initiator : PeerId) (reason : EndReason) :
    x.Follows takes (w.endOffer p initiator reason) (w'.endOffer p initiator reason) := by
  rw [World.endOffer, World.endOffer, h.phase_eq]
  cases w.phase p with
  | idle => exact h
  | live l => exact h
  | offered o =>
      simp only [onPhase]
      split
      · exact of_answers (h.farewell ..)
      · exact h

theorem start (our : PeerId) (name : Option Text) (other : PeerId) (fileName : Text) :
    Answers takes x Eq (w.start p our name other fileName d)
      (w'.start p our name other fileName d) := by
  rw [World.start, World.start, h.identity_eq, h.phase_eq, h.text_eq]
  split
  · exact .intro rfl h
  · split
    · exact .intro rfl h
    · cases w.phase p with
      | offered => exact .intro rfl h
      | live => exact .intro rfl h
      | idle =>
          have hepoch := h.nextEpoch (p := p)
          simp only [onPhase]
          generalize w.nextEpoch p = r at hepoch ⊢
          generalize w'.nextEpoch p = r' at hepoch ⊢
          obtain ⟨epoch, w₁⟩ := r
          obtain ⟨_, w₁'⟩ := r'
          obtain ⟨rfl, h₁⟩ := hepoch
          have hattach := h₁.attach (p := p) (d := d) epoch
          dsimp only
          generalize w₁.attach p epoch d = r at hattach ⊢
          generalize w₁'.attach p (x.epochs p + epoch) d = r' at hattach ⊢
          obtain ⟨capture, w₂⟩ := r
          obtain ⟨_, w₂'⟩ := r'
          obtain ⟨rfl, h₂⟩ := hattach
          dsimp only
          rw [h₂.config_eq]
          have hphase := h₂.setPhase (p := p) (.live ⟨⟨our, our, other⟩, epoch, d, some capture,
            Strategy.start (w₂.party p).config.strategy .initiator, false⟩)
          have hsend := hphase.send (p := p) other
            (.start ⟨our, name.getD our.short, other, (w.document d).text, fileName⟩)
          simp only [onPhase, onLive, Option.map_some] at hsend
          generalize World.send _ p other _ = r at hsend ⊢
          generalize World.send _ p other _ = r' at hsend ⊢
          obtain ⟨sent, w₃⟩ := r
          obtain ⟨rfl, h₃⟩ := hsend
          cases sent with
          | ok => exact .intro rfl (h₃.emit _)
          | error reason =>
              dsimp only
              rw [h₃.phase_eq, isEpoch_onPhase]
              split
              · exact .intro rfl h₃.leave
              · exact .intro rfl h₃

theorem stop : Answers takes x Eq (w.stop p) (w'.stop p) := by
  rw [World.stop, World.stop, h.phase_eq]
  cases w.phase p with
  | idle => exact .intro rfl h
  | offered o => exact h.farewell ..
  | live l => exact h.farewell ..

theorem decline : Answers takes x Eq (w.decline p) (w'.decline p) := by
  rw [World.decline, World.decline, h.phase_eq]
  cases w.phase p with
  | offered o => exact h.farewell ..
  | idle => exact .intro rfl h
  | live => exact .intro rfl h

theorem handleStart (sender : PeerId) (offer : Start) :
    Answers takes x Eq (w.handleStart p sender offer) (w'.handleStart p sender offer) := by
  rw [World.handleStart, World.handleStart, h.phase_eq, h.identity_eq]
  split
  · exact .intro rfl h
  · split
    · exact .intro rfl h
    · cases w.phase p with
      | idle => exact .intro rfl ((h.setPhase (.offered _)).emit _)
      | offered => exact (h.emit _).send ..
      | live => exact (h.emit _).send ..

theorem handleStop (sender : PeerId) :
    x.Follows takes (w.handleStop p sender) (w'.handleStop p sender) := by
  rw [World.handleStop, World.handleStop, h.phase_eq, other_onPhase]
  split
  · exact h.leave.emit _
  · exact h

theorem handleDisconnect (peer : PeerId) :
    x.Follows takes (w.handleDisconnect p peer) (w'.handleDisconnect p peer) := by
  rw [World.handleDisconnect, World.handleDisconnect, h.phase_eq, other_onPhase, isSharing_onPhase]
  split
  · have hended := (h.leave (p := p)).emit (p := p) (.ended peer .disconnected)
    dsimp only
    split
    · exact of_answers (hended.send ..)
    · exact hended
  · exact h

theorem enter (d : Nat) (o : Offered) :
    Lifts (Answers takes x fun epoch epoch' => epoch' = x.epochs p + epoch) (w.enter p d o)
      (w'.enter p d o) := by
  rw [World.enter, World.enter]
  have hepoch := h.nextEpoch (p := p)
  generalize w.nextEpoch p = r at hepoch ⊢
  generalize w'.nextEpoch p = r' at hepoch ⊢
  obtain ⟨rfl, h₁⟩ := hepoch
  dsimp only
  rw [h₁.config_eq]
  refine .bind (.refl _) ?_
  rintro strategy _ rfl
  exact .ok (.intro rfl (h₁.setPhase (.live ⟨o.participants, _, d, none, strategy, true⟩)))

theorem capture (epoch : Nat) (e : Edit) :
    Lifts (Follows takes x) (w.capture p epoch e) (w'.capture p (x.epochs p + epoch) e) := by
  rw [World.capture, World.capture, h.phase_eq]
  cases w.phase p with
  | idle => exact .ok h
  | offered => exact .ok h
  | live l =>
      simp only [onPhase, onLive, ne_eq, Nat.add_left_cancel_iff]
      split
      · exact .ok h
      · refine .bind (.refl _) ?_
        rintro ⟨u, strategy⟩ _ rfl
        have hphase := h.setPhase (p := p) (.live { l with strategy := strategy })
        have hsend := hphase.send (p := p) l.participants.other (.update u)
        simp only [onPhase, onLive] at hsend
        dsimp only
        generalize World.send _ p _ _ = r at hsend ⊢
        generalize World.send _ p _ _ = r' at hsend ⊢
        obtain ⟨sent, w₁⟩ := r
        obtain ⟨rfl, h₁⟩ := hsend
        cases sent with
        | error reason => exact .ok (h₁.emit _)
        | ok => exact .ok h₁

theorem disconnect (peer : PeerId) :
    x.Follows takes { w with network := w.network.disconnect peer }
      { w' with network := w'.network.disconnect peer } := by
  rw [Network.disconnect, Network.disconnect, h.isConnected_eq]
  obtain ⟨rfl, hfits⟩ := id h
  split
  · refine ⟨?_, { hfits with
      queue_eq_nil := fun id hid => hfits.queue_eq_nil id (by simpa using hid) }⟩
    have hcomm : ∀ id e, Network.Endpoint.leave peer (x.onEndpoint id e) =
        x.onEndpoint id (Network.Endpoint.leave peer e) := by
      intro id e
      cases hattached : e.attached with
      | false => simp [Network.Endpoint.leave, onEndpoint, hattached]
      | true =>
          by_cases hpeer : e.peer = peer
          · simp [Network.Endpoint.leave, onEndpoint, hattached, hpeer]
          · simp [Network.Endpoint.leave, onEndpoint, hattached, hpeer, Network.Endpoint.deliver]
    have hslots :
        (w.network.endpoints.adjust x.onEndpoint).slots.map (Network.Endpoint.leave peer) =
        (w.network.endpoints.slots.map (Network.Endpoint.leave peer)).mapIdx x.onEndpoint :=
      List.ext_getElem (by simp) fun i _ _ => by simp [Table.adjust, hcomm]
    exact congrArg (fun slots => { x.on w with network := ⟨⟨slots⟩⟩ }) hslots
  · exact h

theorem receive (hp : takes p) : Answers takes x Eq (w.receive p) (w'.receive p) := by
  have hsame : ∀ e, x.onEndpoint (w.party p).endpoint e = e :=
    onEndpoint_eq_self (h.fits.taker p hp)
  have hparty : (w'.party p).endpoint = (w.party p).endpoint := by
    rw [h.party_eq]
    rfl
  rw [World.receive, World.receive, Network.receive, Network.receive, hparty, h.endpoint_eq, hsame]
  cases (w.network.endpoint (w.party p).endpoint).queue with
  | nil => exact .intro rfl h
  | cons arrival rest => exact .intro rfl (h.modifyEndpoint fun e => by rw [hsame, hsame])

end Follows

/-! ## Calls that write -/

/-- Writing comes to the same with the offset and without it. -/
def Writes (takes : Nat → Prop) (x : Offset) (write : Writer) : Prop :=
  ∀ ⦃w w'⦄ d e, Follows takes x w w' → Lifts (Answers takes x Eq) (write d e w) (write d e w')

/-- Calls come to the same with the offset and without it. -/
def Calls (takes : Nat → Prop) (x : Offset) (caller : Caller) : Prop :=
  ∀ ⦃w w'⦄ c, MayMake takes c → Follows takes x w w' →
    Lifts (Answers takes x Eq) (caller c w) (caller c w')

namespace Writes

variable {write : Writer} (hwrite : x.Writes takes write) (h : x.Follows takes w w')
include hwrite h

theorem accept : Lifts (Answers takes x Eq) (w.accept write p d) (w'.accept write p d) := by
  rw [World.accept, World.accept, h.writing_eq, h.phase_eq]
  split
  · exact .error
  · cases w.phase p with
    | idle => exact .ok (.intro rfl h)
    | live => exact .ok (.intro rfl h)
    | offered o =>
        refine .bind ((h.setWriting true).enter d o) ?_
        rintro ⟨epoch, w₁⟩ ⟨_, w₁'⟩ ⟨rfl, h₁⟩
        have htext : (w₁'.document d).overwriting o.buffer =
            (w₁.document d).overwriting o.buffer := by
          rw [Document.overwriting, h₁.length_eq]
          rfl
        dsimp only
        rw [htext]
        refine .bind (hwrite d _ h₁) ?_
        rintro ⟨written, w₂⟩ _ ⟨rfl, h₂⟩
        have h₃ := h₂.resume (p := p) epoch
        cases written with
        | error reason => exact .ok (.intro rfl ((h₃.endSession ..).setWriting false))
        | ok => exact .ok (.intro rfl ((h₃.emit _).setWriting false))

theorem writeRemote (sender : PeerId) (epoch : Nat) (e : Edit) (capture : Option Nat)
    (first : Bool) :
    Lifts (Answers takes x Eq) (w.writeRemote write p sender epoch d e capture first)
      (w'.writeRemote write p sender (x.epochs p + epoch) d e (capture.map (x.number d))
        first) := by
  unfold World.writeRemote
  refine .bind (hwrite d e (Follows.setWriting ?_ true)) ?_
  · cases capture with
    | none => exact h
    | some id => exact h.unlisten id
  rintro ⟨written, w₂⟩ _ ⟨rfl, h₂⟩
  have h₃ := h₂.resume (p := p) epoch
  cases written with
  | error reason => exact .ok (.intro rfl ((h₃.endSession ..).setWriting false))
  | ok =>
      cases first with
      | false => exact .ok (.intro rfl (h₃.setWriting false))
      | true => exact .ok (.intro rfl ((h₃.emit _).setWriting false))

theorem handleUpdate (sender : PeerId) (u : Update) :
    Lifts (Answers takes x Eq) (w.handleUpdate write p sender u)
      (w'.handleUpdate write p sender u) := by
  rw [World.handleUpdate, World.handleUpdate, h.writing_eq, h.limits_eq]
  split
  · exact .error
  · refine Lifts.bind (R := fun r r' => r' = (x.onIncoming p r.1, x.onPhase p r.2)) ?_ ?_
    · rw [h.phase_eq, receive?_onPhase]
      cases w.phase p with
      | idle => exact .orOverflow ..
      | offered => exact .orOverflow ..
      | live l =>
          simp only [onPhase, onLive, h.length_eq]
          exact .orOverflow ..
    rintro ⟨incoming, phase⟩ _ rfl
    have h₁ := h.setPhase (p := p) phase
    cases incoming with
    | ignored => exact .ok (.intro rfl h₁)
    | buffered => exact .ok (.intro rfl h₁)
    | outsider => exact .ok (.intro rfl h₁)
    | endOffer reason => exact .ok (.intro rfl (h₁.endOffer ..))
    | endSession epoch reason => exact .ok (.intro rfl (h₁.endSession ..))
    | write epoch d e capture first => exact hwrite.writeRemote h₁ sender epoch e capture first

theorem handleMessage (sender : PeerId) (payload : Bytes) :
    Lifts (Answers takes x Eq) (w.handleMessage write p sender payload)
      (w'.handleMessage write p sender payload) := by
  rw [World.handleMessage, World.handleMessage, h.limits_eq]
  cases Message.decode (w.limits p) payload with
  | error reason => exact .ok (.intro rfl h)
  | ok m =>
      cases m with
      | start offer => exact .ok (h.handleStart sender offer)
      | update u => exact hwrite.handleUpdate h sender u
      | stop => exact .ok (.intro rfl (h.handleStop sender))

theorem handleArrival (arrival : Arrival) :
    Lifts (Answers takes x Eq) (w.handleArrival write p arrival)
      (w'.handleArrival write p arrival) := by
  cases arrival with
  | message sender payload => exact hwrite.handleMessage h sender payload
  | disconnected peer => exact .ok (.intro rfl (h.handleDisconnect peer))

theorem handleNext (hp : takes p) :
    Lifts (Answers takes x Eq) (w.handleNext write p) (w'.handleNext write p) := by
  rw [World.handleNext, World.handleNext]
  have hreceive := h.receive hp
  generalize w.receive p = r at hreceive ⊢
  generalize w'.receive p = r' at hreceive ⊢
  obtain ⟨taken, w₁⟩ := r
  obtain ⟨rfl, h₁⟩ := hreceive
  cases taken with
  | error reason => exact .ok (.intro rfl h₁)
  | ok taken =>
      cases taken with
      | none => exact .ok (.intro rfl h₁)
      | some arrival =>
          refine .bind (hwrite.handleArrival h₁ arrival) ?_
          rintro _ _ ⟨rfl, h₂⟩
          exact .ok (.intro rfl h₂)

theorem pumpFrom (hp : takes p) (handled fuel : Nat) :
    Lifts (Answers takes x Eq) (World.pumpFrom write p handled fuel w)
      (World.pumpFrom write p handled fuel w') := by
  induction fuel generalizing w w' handled with
  | zero => exact .error
  | succ fuel ih =>
      refine .bind (hwrite.handleNext h hp) ?_
      rintro ⟨next, w₁⟩ _ ⟨rfl, h₁⟩
      cases next with
      | error reason => exact .ok (.intro rfl h₁)
      | ok next =>
          cases next with
          | none => exact .ok (.intro rfl h₁)
          | some result => exact ih h₁ _

theorem serveWithin (hp : takes p) (fuel : Nat) :
    Lifts (Answers takes x Eq) (World.serveWithin write p fuel w)
      (World.serveWithin write p fuel w') := by
  induction fuel generalizing w w' with
  | zero => exact .error
  | succ fuel ih =>
      refine .bind (hwrite.handleNext h hp) ?_
      rintro ⟨next, w₁⟩ _ ⟨rfl, h₁⟩
      cases next with
      | error reason =>
          dsimp only
          rw [h₁.phase_eq, other_onPhase]
          cases (w₁.phase p).other with
          | none => exact .ok (.intro rfl h₁)
          | some other => exact .ok (.intro rfl (h₁.handleDisconnect other))
      | ok next =>
          cases next with
          | none => exact .ok (.intro rfl h₁)
          | some result => exact ih h₁

end Writes

/-- Results with a world each are related as their parts are. -/
theorem Answers.map {α β : Type} {r r' : α × World} (h : Answers takes x Eq r r') (f : α → β) :
    Answers takes x Eq (f r.1, r.2) (f r'.1, r'.2) := by
  obtain ⟨rfl, h⟩ := h
  exact .intro rfl h

theorem Answers.lift {α β : Type} {r r' : Except Fault (α × World)}
    (h : Lifts (Answers takes x Eq) r r') (f : α → β) :
    Lifts (Answers takes x Eq) (do let (a, w) ← r; return (f a, w))
      (do let (a, w) ← r'; return (f a, w)) :=
  h.bind fun _ _ h => .ok (h.map f)

/-- Each call comes to the same when writing does. -/
theorem Writes.calls {write : Writer} (hwrite : x.Writes takes write) :
    x.Calls takes (World.perform write) := by
  intro w w' c hc h
  cases c with
  | edit d e => exact Answers.lift (hwrite d e h) _
  | disconnect peer => exact .ok (.intro rfl (h.disconnect peer))
  | start p our name other fileName d => exact .ok ((h.start our name other fileName).map _)
  | accept p d => exact Answers.lift (hwrite.accept h) _
  | decline p => exact .ok (h.decline.map _)
  | stop p => exact .ok (h.stop.map _)
  | pump p => exact Answers.lift (hwrite.pumpFrom h (hc p rfl) 0 Word.count) _
  | handleNext p => exact Answers.lift (hwrite.handleNext h (hc p rfl)) _
  | handleMessage p sender payload => exact Answers.lift (hwrite.handleMessage h sender payload) _
  | handleDisconnect p peer => exact .ok (.intro rfl (h.handleDisconnect peer))
  | serve p => exact Answers.lift (hwrite.serveWithin h (hc p rfl) Word.count) _

/-! ## Reactions -/

namespace Calls

variable {caller : Caller} (hcaller : x.Calls takes caller) (h : x.Follows takes w w')
include hcaller h

theorem reactAll {calls : List Call} (hcalls : ∀ c ∈ calls, MayMake takes c) :
    Lifts (Follows takes x) (World.reactAll caller calls w) (World.reactAll caller calls w') := by
  induction calls generalizing w w' with
  | nil => exact .ok h
  | cons c rest ih =>
      obtain ⟨hc, hrest⟩ := List.forall_mem_cons.1 hcalls
      refine .bind (hcaller c hc h) ?_
      rintro ⟨outcome, w₁⟩ _ ⟨rfl, h₁⟩
      exact ih (h₁.note outcome) hrest

theorem makeAll {calls : List Call} (hcalls : ∀ c ∈ calls, MayMake takes c) :
    Lifts (Follows takes x) (World.makeAll caller calls w) (World.makeAll caller calls w') := by
  induction calls generalizing w w' with
  | nil => exact .ok h
  | cons c rest ih =>
      obtain ⟨hc, hrest⟩ := List.forall_mem_cons.1 hcalls
      refine .bind (hcaller c hc h) ?_
      rintro ⟨outcome, w₁⟩ _ ⟨rfl, h₁⟩
      exact ih (h₁.note outcome).callDone hrest

theorem notifyOne (e : Edit) (subscriber : Subscriber) :
    Lifts (Follows takes x) (World.notifyOne caller e subscriber w)
      (World.notifyOne caller e (x.onSubscriber subscriber) w') := by
  cases subscriber with
  | capture p epoch => exact h.capture epoch e
  | host i =>
      simp only [World.notifyOne, onSubscriber, h.scripts_eq]
      obtain ⟨rfl, hfits⟩ := id h
      cases hscript : w.scripts.get i with
      | nil => exact .ok h
      | cons now later =>
          have hnow : ∀ c ∈ now, MayMake takes c := fun c hc =>
            hfits.waiting c (.inr ⟨i, now, hscript ▸ List.mem_cons_self, hc⟩)
          have hlater : x.Follows takes { w with scripts := w.scripts.set i later }
              { x.on w with scripts := w.scripts.set i later } := by
            refine h.of_eq rfl rfl rfl fun c hc => ?_
            refine hc.of_le (fun _ => .inl rfl) fun j now' hnow' => ?_
            by_cases hj : j = i
            · subst hj
              rw [Table.get_set_self] at hnow'
              exact hscript ▸ List.mem_cons_of_mem _ hnow'
            · rwa [Table.get_set_of_ne _ _ hj] at hnow'
          exact reactAll hcaller hlater hnow

theorem notify (e : Edit) (d : Nat) (listeners : List (Nat × Subscriber)) :
    Lifts (Follows takes x) (Document.notify (World.notifyOne caller) e listeners w)
      (Document.notify (World.notifyOne caller) e
        (listeners.map fun l => (x.number d l.1, x.onSubscriber l.2)) w') := by
  induction listeners generalizing w w' with
  | nil => exact .ok h
  | cons l rest ih => exact .bind (notifyOne hcaller h e l.2) fun _ _ h₁ => ih h₁

theorem commit (e : Edit) :
    Lifts (Answers takes x Eq) (World.commit caller d e w) (World.commit caller d e w') := by
  have hdocument : (World.site d).get w' = x.onDocument d ((World.site d).get w) :=
    h.document_eq d
  rw [World.commit, World.commit, Document.replaceIn, Document.replaceIn, hdocument]
  have htext : (x.onDocument d ((World.site d).get w)).text = ((World.site d).get w).text := rfl
  rw [htext]
  cases e.apply ((World.site d).get w).text with
  | error reason => exact .ok (.intro rfl h)
  | ok text =>
      have hset : x.Follows takes (w.setDocument d { w.document d with text := text })
          (w'.setDocument d (x.onDocument d { w.document d with text := text })) :=
        h.setDocument (Nat.le_refl _)
      refine .bind (notify hcaller hset e d (w.document d).listeners) ?_
      intro w₁ w₁' h₁
      exact .ok (.intro rfl h₁)

omit h in
theorem writeVia : x.Writes takes (World.writeVia caller) := by
  intro w w' d e h
  simp only [World.writeVia, h.hook_eq]
  cases hhook : (w.surfaces.get d).hook with
  | none => exact commit hcaller h e
  | some hook =>
      have hcalls : ∀ c ∈ hook.calls, MayMake takes c := fun c hc =>
        h.fits.waiting c (.inl ⟨d, hook, hhook, hc⟩)
      have hfire : x.Follows takes (w.fire d hook) (w'.fire d hook) := by
        have hunderway := h.underway_eq
        obtain ⟨hunhooked, hfits⟩ := h.unhook (d := d)
        rw [World.fire, World.fire, hunhooked, hunderway]
        exact Follows.of_eq ⟨rfl, hfits⟩ rfl rfl rfl fun _ hc => hc
      refine .bind (makeAll hcaller hfire hcalls) ?_
      intro w₁ w₁' h₁
      cases hook.rejection with
      | some reason => exact .ok (.intro rfl h₁)
      | none => exact commit hcaller h₁ e

end Calls

/-- Writing comes to the same, however deep reactions are nested. -/
theorem writes_write (takes : Nat → Prop) (x : Offset) (depth : Nat) :
    x.Writes takes (World.write depth) := by
  induction depth with
  | zero => exact Calls.writeVia fun _ _ _ _ _ => .error
  | succ depth ih => exact Calls.writeVia ih.calls

/-- A call comes to the same with the offset and without it, with the same result, and leaves
two worlds that differ by the offset. -/
theorem Follows.run (h : x.Follows takes w w') {c : Call} (hc : MayMake takes c) :
    Lifts (Answers takes x Eq) (w.run c) (w'.run c) := by
  rw [World.run, World.run, h.pendingReactions_eq]
  exact (writes_write takes x _).calls c hc h

end Offset

/-! ## Runs that go on -/

/-- Something arrives at an endpoint, wherever it comes from. -/
def World.arrive (w : World) (id : Nat) (arrival : Arrival) : World :=
  { w with network := w.network.modify id (Network.Endpoint.deliver arrival) }

/-- What a run is given next. -/
inductive Input where
  | call (c : Call)
  | arrival (endpoint : Nat) (arrival : Arrival)

/-- Go on as given, and note what comes of each call. -/
def World.outcomes (w : World) : List Input → Except Fault (List Outcome × World)
  | [] => .ok ([], w)
  | .call c :: rest => do
      let (outcome, w) ← w.run c
      let (outcomes, w) ← w.outcomes rest
      return (outcome :: outcomes, w)
  | .arrival id arrival :: rest => (w.arrive id arrival).outcomes rest

namespace Offset

/-- Runs come to the same with an offset in which nothing has arrived and without it. -/
theorem Follows.outcomes {x : Offset} (h : x.Follows (fun _ => True) w w')
    (inputs : List Input) :
    Lifts (Answers (fun _ => True) x Eq) (w.outcomes inputs) (w'.outcomes inputs) := by
  induction inputs generalizing w w' with
  | nil => exact .ok (.intro rfl h)
  | cons input rest ih =>
      cases input with
      | call c =>
          refine .bind (h.run fun _ _ => trivial) ?_
          rintro ⟨outcome, w₁⟩ _ ⟨rfl, h₁⟩
          exact Answers.lift (ih h₁) _
      | arrival id arrival =>
          exact ih (h.modifyEndpoint fun e => by simp [onEndpoint, Network.Endpoint.deliver])

end Offset

end PairEdit.Session
