import Mathlib.Data.List.Basic
import PairEdit.Proofs.Closure
import PairEdit.Proofs.Codec

/-!
# What a call can do to a world

A call may write to documents, and then hooks and listeners make calls of their own.  However
far that goes, the world changes step by step: a party enters a phase, begins or ends to capture,
tells its host or the network something, a document gets a new text.  `WorldStep` lists the
steps.  `WorldSteps` is what they lead to, some of them while a party writes, and every call is
such a chain.
-/

namespace PairEdit.Session

/-! ## Where a message arrives -/

namespace World

/-- The endpoint at which a message of a party to a peer arrives. -/
def route (w : World) (p : Nat) (peer : PeerId) : Except SyncError Nat :=
  match w.network.isConnected (w.identity p), w.network.attached? peer with
  | false, _ => .error .localDisconnected
  | true, none => .error (.peerNotConnected peer)
  | true, some target =>
      if (w.network.endpoint target).held then .ok target else .error (.peerNotConnected peer)

/-- Put a message of a party at the end of a queue. -/
def deliver (w : World) (p : Nat) (payload : Bytes) (target : Nat) : World :=
  { w with
    network := w.network.modify target
      (Network.Endpoint.deliver (.message (w.identity p) payload)) }

theorem transmit_eq (w : World) (p : Nat) (peer : PeerId) (payload : Bytes) :
    w.transmit p peer payload =
      match w.route p peer with
      | .error reason => (.error reason, w)
      | .ok target => (.ok (), w.deliver p payload target) := by
  simp only [transmit, Network.send, route, deliver, identity]
  split
  · next h => rw [Bool.not_eq_true'] at h; rw [h]
  · next h =>
      rw [Bool.not_eq_true', Bool.not_eq_false] at h
      rw [h]
      cases w.network.attached? peer with
      | none => rfl
      | some target =>
          cases hheld : (w.network.endpoint target).held with
          | false => simp [hheld]
          | true => simp [hheld]

/-- A message that keeps to the limits arrives, when there is a way, and otherwise nothing
happens. -/
theorem send_eq (w : World) (p : Nat) (peer : PeerId) (m : Message) :
    w.send p peer m =
      match m.encode (w.limits p) with
      | .error reason => (.error (.sync reason), w)
      | .ok payload =>
          match w.route p peer with
          | .error reason => (.error (.sync reason), w)
          | .ok target => (.ok (), w.deliver p payload target) := by
  rw [send]
  cases m.encode (w.limits p) with
  | error reason => rfl
  | ok payload =>
      simp only [transmit_eq]
      cases w.route p peer with
      | error reason => rfl
      | ok target => rfl

/-- The endpoint where a message of a party to a peer arrives, if it can be sent. -/
def sendTarget (w : World) (p : Nat) (peer : PeerId) (m : Message) : Option Nat :=
  match m.encode (w.limits p), w.route p peer with
  | .ok _, .ok target => some target
  | _, _ => none

/-- A message cannot be sent, and nothing happens, or it arrives. -/
theorem send_cases (w : World) (p : Nat) (peer : PeerId) (m : Message) :
    (∃ reason, w.send p peer m = (.error reason, w) ∧ w.sendTarget p peer m = none) ∨
      ∃ target, w.send p peer m = (.ok (), w.deliver p m.payload target) ∧
        w.sendTarget p peer m = some target := by
  rw [send_eq, sendTarget]
  cases hencode : m.encode (w.limits p) with
  | error reason => exact .inl ⟨_, rfl, rfl⟩
  | ok payload =>
      obtain rfl := Message.eq_payload_of_encode hencode
      cases w.route p peer with
      | error reason => exact .inl ⟨_, rfl, rfl⟩
      | ok target => exact .inr ⟨target, rfl, rfl⟩

theorem send_snd (w : World) (p : Nat) (peer : PeerId) (m : Message) :
    (w.send p peer m).2 =
      match w.sendTarget p peer m with
      | some target => w.deliver p m.payload target
      | none => w := by
  obtain ⟨reason, hsend, htarget⟩ | ⟨target, hsend, htarget⟩ := w.send_cases p peer m
  · rw [hsend, htarget]
  · rw [hsend, htarget]

theorem sendTarget_congr {w w' : World} {p : Nat} (hnetwork : w'.network = w.network)
    (hlimits : w'.limits p = w.limits p) (hidentity : w'.identity p = w.identity p)
    (peer : PeerId) (m : Message) : w'.sendTarget p peer m = w.sendTarget p peer m := by
  rw [sendTarget, sendTarget, route, route, hlimits, hidentity, hnetwork]

/-- A message arrives at an endpoint of the peer. -/
theorem of_route {w : World} {p target : Nat} {peer : PeerId} (h : w.route p peer = .ok target) :
    target < w.network.endpoints.slots.length ∧ (w.network.endpoint target).peer = peer := by
  unfold route at h
  split at h
  · cases h
  · cases h
  · next found _ hfound =>
      split at h
      · cases h
        obtain ⟨hlt, hattached, -⟩ := List.findIdx?_eq_some_iff_getElem.1 hfound
        rw [Bool.and_eq_true, beq_iff_eq] at hattached
        refine ⟨hlt, ?_⟩
        rw [Network.endpoint, Table.get, List.getElem?_eq_getElem hlt]
        exact hattached.2
      · cases h

theorem of_sendTarget {w : World} {p target : Nat} {peer : PeerId} {m : Message}
    (h : w.sendTarget p peer m = some target) :
    target < w.network.endpoints.slots.length ∧ (w.network.endpoint target).peer = peer := by
  unfold sendTarget at h
  split at h
  · next hroute =>
      cases h
      exact of_route hroute
  · cases h

/-- A message that can be sent is the last one in the queue where it arrives. -/
theorem endpoint_send (w : World) (p : Nat) (peer : PeerId) (m : Message) (id : Nat) :
    (w.send p peer m).2.network.endpoint id = { w.network.endpoint id with
      queue := (w.network.endpoint id).queue ++ if w.sendTarget p peer m = some id then
        [.message (w.identity p) m.payload] else [] } := by
  rw [send_snd]
  cases w.sendTarget p peer m with
  | none => simp
  | some target =>
      simp only [deliver, Network.endpoint, Network.modify]
      by_cases hid : id = target
      · subst hid
        simp [Network.Endpoint.deliver]
      · rw [Table.get_modify_of_ne _ _ hid, if_neg fun h => hid (Option.some.inj h).symm]
        simp

/-! ## What is queued for a party -/

/-- What is queued for a party, oldest first. -/
def mailbox (w : World) (p : Nat) : List Arrival := (w.network.endpoint (w.party p).endpoint).queue

/-- The world in which something else is queued for a party. -/
def setMailbox (w : World) (p : Nat) (arrivals : List Arrival) : World :=
  { w with network := w.network.modify (w.party p).endpoint fun e => { e with queue := arrivals } }

theorem queue_setMailbox (w : World) (p : Nat) (arrivals : List Arrival) (id : Nat) :
    ((w.setMailbox p arrivals).network.endpoint id).queue =
      if id = (w.party p).endpoint then arrivals else (w.network.endpoint id).queue := by
  by_cases hid : id = (w.party p).endpoint
  · rw [hid, if_pos rfl, setMailbox, Network.endpoint, Network.modify, Table.get_modify_self]
  · rw [if_neg hid, setMailbox, Network.endpoint, Network.modify, Table.get_modify_of_ne _ _ hid]
    rfl

theorem receive_of_nil {w : World} {p : Nat} (h : w.mailbox p = []) : w.receive p =
    (if (w.network.endpoint (w.party p).endpoint).attached then .ok none
      else .error .channelClosed, w) := by
  unfold mailbox at h
  simp only [receive, Network.receive, h]

theorem receive_of_cons {w : World} {p : Nat} {a : Arrival} {rest : List Arrival}
    (h : w.mailbox p = a :: rest) :
    w.receive p = (.ok (some a), w.setMailbox p rest) := by
  unfold mailbox at h
  simp only [receive, Network.receive, h, setMailbox]

end World

/-! ## Steps -/

namespace World

/-- Begin a session as its initiator, and capture from now on. -/
def initiate (w : World) (p d : Nat) (participants : Participants) (s : Strategy) : World :=
  let (epoch, w) := w.nextEpoch p
  let (capture, w) := w.attach p epoch d
  w.setPhase p (.live ⟨participants, epoch, d, some capture, s, false⟩)

end World

open World

/-- One change of the world. -/
inductive WorldStep : World → World → Prop where
  | text (w : World) (d : Nat) (t : Text) :
      WorldStep w (w.setDocument d { w.document d with text := t })
  | unhook (w : World) (d : Nat) : WorldStep w (w.setHook d none)
  | note (w : World) (scripts : Table (List (List Call))) (underway : List Call)
      (log : List Outcome) :
      WorldStep w { w with scripts := scripts, underway := underway, log := log }
  | emit (w : World) (p : Nat) (event : Event) : WorldStep w (w.emit p event)
  | send (w : World) (p : Nat) (peer : PeerId) (m : Message) : WorldStep w (w.send p peer m).2
  | receive (w : World) (p : Nat) : WorldStep w (w.receive p).2
  | disconnect (w : World) (peer : PeerId) :
      WorldStep w { w with network := w.network.disconnect peer }
  | release (w : World) (id : Nat) : WorldStep w { w with network := w.network.release id }
  | vacate (w : World) (p : Nat) : WorldStep w (w.vacate p)
  | stay (w : World) (p : Nat) : WorldStep w (w.setPhase p (w.phase p))
  | offer (w : World) (p : Nat) (o : Offered) (hidle : w.phase p = .idle) :
      WorldStep w (w.setPhase p (.offered o))
  | absorb (w : World) (p : Nat) (o : Offered) (text : Text) (n : Nat)
      (hoffered : w.phase p = .offered o) :
      WorldStep w (w.setPhase p (.offered { o with buffer := text, buffered := n }))
  | retune (w : World) (p : Nat) (l : Live) (s : Strategy) (hlive : w.phase p = .live l) :
      WorldStep w (w.setPhase p (.live { l with strategy := s }))
  | suspend (w : World) (p : Nat) (l : Live) (s : Strategy) (hlive : w.phase p = .live l) :
      WorldStep w (w.suspend p l s)
  | resume (w : World) (p epoch : Nat) : WorldStep w (w.resume p epoch)
  | initiate (w : World) (p d : Nat) (participants : Participants) (s : Strategy)
      (hidle : w.phase p = .idle) : WorldStep w (w.initiate p d participants s)
  | join (w : World) (p d : Nat) (o : Offered) (s : Strategy) (hoffered : w.phase p = .offered o) :
      WorldStep w (w.join p d o s)

/-- What steps lead to, some of them while a party writes that did not write before. -/
inductive WorldSteps : World → World → Prop where
  | refl (w : World) : WorldSteps w w
  | single {w w' : World} (h : WorldStep w w') : WorldSteps w w'
  | trans {w w' w'' : World} (h : WorldSteps w w') (h' : WorldSteps w' w'') : WorldSteps w w''
  | writing {w w' : World} (p : Nat) (hfree : (w.party p).writing = false)
      (h : WorldSteps (w.setWriting p true) w') : WorldSteps w (w'.setWriting p false)

/-- What is true of a world and kept by every step is true after all of them. -/
theorem WorldSteps.invariant {P : World → Prop} (hstep : ∀ {w w'}, WorldStep w w' → P w → P w')
    (hwriting : ∀ {w} p writing, P w → P (w.setWriting p writing)) {w w' : World}
    (h : WorldSteps w w') (hinv : P w) : P w' := by
  induction h with
  | refl => exact hinv
  | single h => exact hstep h hinv
  | trans _ _ ih ih' => exact ih' (ih hinv)
  | writing p _ _ ih => exact hwriting p false (ih (hwriting p true hinv))

namespace World

variable {w w' : World} {p d : Nat}

/-! ### Letting go -/

theorem worldSteps_collect (w : World) : WorldSteps w w.collect :=
  ReleaseClosed.collect ⟨.refl, .trans, fun w d => .single (.unhook w d),
    fun _ => .single (.vacate ..), fun w id => .single (.release w id)⟩ w

theorem worldSteps_leave (w : World) (p : Nat) : WorldSteps w (w.leave p) := by
  have hvacate : WorldSteps w (w.vacate p) := .single (.vacate w p)
  obtain heq | heq := w.leave_cases p
  · exact heq ▸ hvacate
  · exact heq ▸ .trans hvacate (worldSteps_collect _)

theorem worldSteps_fire (w : World) (d : Nat) (hook : Hook) : WorldSteps w (w.fire d hook) :=
  .trans (.single (.unhook w d)) (.single (.note _ w.scripts (hook.calls ++ w.underway) w.log))

/-! ### Calls that write nothing -/

/-- To leave, to tell the host that the session ended, and to tell the peer. -/
theorem worldSteps_farewell (w : World) (p : Nat) (other : PeerId) (event : Event) :
    WorldSteps w (((w.leave p).emit p event).send p other .stop).2 :=
  .trans (worldSteps_leave w p) (.trans (.single (.emit _ p event))
    (.single (.send _ p other .stop)))

theorem worldSteps_of_endRun (h : EndRun p w w') : WorldSteps w w' := by
  cases h with
  | none => exact .refl w
  | left => exact .trans (worldSteps_leave w p) (.single (.emit _ p _))
  | told => exact worldSteps_farewell ..

theorem worldSteps_endSession (w : World) (p epoch : Nat) (reason : EndReason) :
    WorldSteps w (w.endSession p epoch reason) :=
  worldSteps_of_endRun (.endSession ..)

theorem worldSteps_endOffer (w : World) (p : Nat) (initiator : PeerId) (reason : EndReason) :
    WorldSteps w (w.endOffer p initiator reason) :=
  worldSteps_of_endRun (.endOffer ..)

theorem worldSteps_start (w : World) (p : Nat) (our : PeerId) (name : Option Text) (other : PeerId)
    (fileName : Text) (d : Nat) : WorldSteps w (w.start p our name other fileName d).2 := by
  unfold start
  split
  · exact .refl w
  · split
    · exact .refl w
    · cases hphase : w.phase p with
      | idle =>
          dsimp only
          generalize hr : World.send _ p other _ = r
          have hsend : WorldSteps w r.2 :=
            hr ▸ .trans (.single (.initiate w p d _ _ hphase)) (.single (.send _ p other _))
          obtain ⟨sent, w₁⟩ := r
          cases sent with
          | error reason =>
              dsimp only
              split
              · exact .trans hsend (worldSteps_leave w₁ p)
              · exact hsend
          | ok => exact .trans hsend (.single (.emit w₁ p _))
      | offered | live => exact .refl w

theorem worldSteps_stop (w : World) (p : Nat) : WorldSteps w (w.stop p).2 :=
  worldSteps_of_endRun (.stop w p)

theorem worldSteps_decline (w : World) (p : Nat) : WorldSteps w (w.decline p).2 :=
  worldSteps_of_endRun (.decline w p)

theorem worldSteps_handleStart (w : World) (p : Nat) (sender : PeerId) (offer : Start) :
    WorldSteps w (w.handleStart p sender offer).2 := by
  obtain ⟨-, reason, heq⟩ | ⟨-, -, ⟨hidle, heq⟩ | ⟨-, heq⟩⟩ := w.handleStart_cases p sender offer
  · rw [heq]
    exact .refl w
  · rw [heq]
    exact .trans (.single (.offer w p _ hidle)) (.single (.emit _ p _))
  · rw [heq]
    exact .trans (.single (.emit w p _)) (.single (.send _ p sender .stop))

theorem worldSteps_handleStop (w : World) (p : Nat) (sender : PeerId) :
    WorldSteps w (w.handleStop p sender) :=
  worldSteps_of_endRun (.handleStop ..)

theorem worldSteps_handleDisconnect (w : World) (p : Nat) (peer : PeerId) :
    WorldSteps w (w.handleDisconnect p peer) :=
  worldSteps_of_endRun (.handleDisconnect ..)

theorem worldSteps_capture {epoch : Nat} {e : Edit} (h : w.capture p epoch e = .ok w') :
    WorldSteps w w' := by
  have hsent : ∀ (l : Live) (u : Update) (s : Strategy), w.phase p = .live l → WorldSteps w
      ((w.setPhase p (.live { l with strategy := s })).send p l.participants.other
        (.update u)).2 :=
    fun l u s hlive => .trans (.single (.retune w p l s hlive)) (.single (.send _ p _ _))
  cases CaptureRun.of_capture h with
  | skipped => exact .refl w
  | sent l u s hlive _ _ _ hsend =>
      have hsteps := hsent l u s hlive
      rwa [hsend] at hsteps
  | unsent l u s reason hlive _ _ _ hsend =>
      have hsteps := hsent l u s hlive
      rw [hsend] at hsteps
      exact .trans hsteps (.single (.emit _ p _))

/-! ### Calls that write -/

variable {write : Writer}

/-- After a write a session captures again, or ends because the text was refused. -/
theorem worldSteps_afterWrite (w : World) (p epoch : Nat) (reason : EndReason) :
    WorldSteps w ((w.resume p epoch).endSession p epoch reason) :=
  .trans (.single (.resume w p epoch)) (worldSteps_endSession ..)

theorem worldSteps_accept (hwrite : WriterKeeps WorldSteps write) {result : Except ShareError Unit}
    (h : w.accept write p d = .ok (result, w')) : WorldSteps w w' := by
  obtain ⟨hfree, hrun⟩ := AcceptRun.of_accept h
  have hjoin : ∀ {o epoch u}, w.phase p = .offered o →
      (w.setWriting p true).enter p d o = .ok (epoch, u) → WorldSteps (w.setWriting p true) u := by
    intro o epoch u hoffered henter
    obtain ⟨s, -, -, rfl⟩ := exists_join_of_enter henter
    exact .single (.join _ p d o s (by simpa [setWriting, World.phase] using hoffered))
  cases hrun with
  | none => exact .refl w
  | refused o hoffered henter hwritten =>
      have hwrote := WorldSteps.trans (hjoin hoffered henter) (hwrite hwritten)
      exact .writing p hfree (.trans hwrote (worldSteps_afterWrite ..))
  | @accepted o epoch u v hoffered henter hwritten =>
      have hwrote := WorldSteps.trans (hjoin hoffered henter) (hwrite hwritten)
      exact .writing p hfree (.trans hwrote (.trans (.single (.resume v p epoch))
        (.single (.emit _ p _))))

theorem worldSteps_handleUpdate (hwrite : WriterKeeps WorldSteps write) {sender : PeerId}
    {u : Update}
    {result : Except ShareError Unit} (h : w.handleUpdate write p sender u = .ok (result, w')) :
    WorldSteps w w' := by
  obtain ⟨hfree, hrun⟩ := UpdateRun.of_handleUpdate h
  have hfree' : ∀ l s, ((w.suspend p l s).party p).writing = false := by
    intro l s
    simpa [suspend, setPhase] using hfree
  cases hrun with
  | ignored | outsider => exact .single (.stay w p)
  | buffered o text n hoffered => exact .single (.absorb w p o text n hoffered)
  | endOffer o text n reason hoffered =>
      exact .trans (.single (.absorb w p o text n hoffered)) (worldSteps_endOffer ..)
  | endSession l s reason hlive =>
      exact .trans (.single (.retune w p l s hlive)) (worldSteps_endSession ..)
  | refused l s e hlive _ _ hwritten =>
      exact .trans (.single (.suspend w p l s hlive))
        (.writing p (hfree' l s) (.trans (hwrite hwritten) (worldSteps_afterWrite ..)))
  | @written l s e v hlive _ _ hwritten =>
      have hresumed := WorldSteps.trans (hwrite hwritten) (.single (.resume v p l.epoch))
      refine .trans (.single (.suspend w p l s hlive)) (.writing p (hfree' l s) ?_)
      split
      · exact hresumed
      · exact .trans hresumed (.single (.emit _ p _))

theorem worldSteps_handleMessage (hwrite : WriterKeeps WorldSteps write) {sender : PeerId}
    {payload : Bytes} {result : Except ShareError Unit}
    (h : w.handleMessage write p sender payload = .ok (result, w')) : WorldSteps w w' := by
  cases MessageRun.of_handleMessage h with
  | unreadable => exact .refl w
  | start => exact worldSteps_handleStart ..
  | update _ hupdate => exact worldSteps_handleUpdate hwrite hupdate
  | stop => exact worldSteps_handleStop w p sender

theorem callsClosed_worldSteps (hwrite : WriterKeeps WorldSteps write) :
    CallsClosed write (fun _ => True) (fun _ => True) WorldSteps where
  trans := .trans
  pre_of_post _ hpre := hpre
  edit _ h := hwrite h
  disconnect w peer := .single (.disconnect w peer)
  receive w p := .single (.receive w p)
  start _ _ _ _ _ _ := worldSteps_start ..
  accept _ _ h := worldSteps_accept hwrite h
  decline _ := worldSteps_decline ..
  stop _ := worldSteps_stop ..
  handleMessage _ _ h := worldSteps_handleMessage hwrite h
  handleDisconnect _ _ := worldSteps_handleDisconnect ..

theorem worldSteps_handleArrival (hwrite : WriterKeeps WorldSteps write) {arrival : Arrival}
    {result : Except ShareError Unit} (h : w.handleArrival write p arrival = .ok (result, w')) :
    WorldSteps w w' :=
  (callsClosed_worldSteps hwrite).handleArrival trivial trivial h

theorem worldSteps_handleNext (hwrite : WriterKeeps WorldSteps write)
    {result : Except SyncError (Option (Except ShareError Unit))}
    (h : w.handleNext write p = .ok (result, w')) : WorldSteps w w' :=
  (callsClosed_worldSteps hwrite).handleNext trivial trivial h

theorem worldSteps_pumpFrom (hwrite : WriterKeeps WorldSteps write) {handled fuel : Nat}
    {result : Except ShareError Nat} (h : pumpFrom write p handled fuel w = .ok (result, w')) :
    WorldSteps w w' :=
  (callsClosed_worldSteps hwrite).pumpFrom trivial trivial h

theorem worldSteps_serveWithin (hwrite : WriterKeeps WorldSteps write) {fuel : Nat} {closed : Bool}
    (h : serveWithin write p fuel w = .ok (closed, w')) : WorldSteps w w' :=
  (callsClosed_worldSteps hwrite).serveWithin trivial trivial h

/-- Every call is a chain of steps when writes are. -/
theorem worldSteps_perform_of_writes (write : Writer) (hwrite : WriterKeeps WorldSteps write) :
    CallerKeeps WorldSteps (perform write) :=
  fun _ _ _ _ h => (callsClosed_worldSteps hwrite).perform trivial (fun _ _ => trivial) h

/-! ### Reactions -/

theorem reactionsKeep_worldSteps : ReactionsKeep WorldSteps where
  refl := .refl
  trans := .trans
  note w scripts underway log := .single (.note w scripts underway log)
  unhook w d := .single (.unhook w d)
  collect := worldSteps_collect
  text w d text := .single (.text w d text)
  capture := worldSteps_capture

/-- A write is a chain of steps, however deep reactions are nested. -/
theorem worldSteps_write (depth : Nat) : WriterKeeps WorldSteps (World.write depth) :=
  reactionsKeep_worldSteps.write worldSteps_perform_of_writes depth

theorem worldSteps_nestedCaller (depth : Nat) : CallerKeeps WorldSteps (nestedCaller depth) :=
  reactionsKeep_worldSteps.nestedCaller worldSteps_perform_of_writes depth

variable {caller : Caller}

theorem worldSteps_reactAll (hcaller : CallerKeeps WorldSteps caller) {calls : List Call}
    (h : reactAll caller calls w = .ok w') : WorldSteps w w' :=
  reactionsKeep_worldSteps.closed.reactAll hcaller.calls trivial (fun _ _ => trivial) h

theorem worldSteps_makeAll (hcaller : CallerKeeps WorldSteps caller) {calls : List Call}
    (h : makeAll caller calls w = .ok w') : WorldSteps w w' :=
  reactionsKeep_worldSteps.closed.makeAll hcaller.calls trivial (fun _ _ => trivial) h

theorem worldSteps_notifyOne (hcaller : CallerKeeps WorldSteps caller) {e : Edit}
    {subscriber : Subscriber} (h : notifyOne caller e subscriber w = .ok w') : WorldSteps w w' :=
  reactionsKeep_worldSteps.closed.notifyOne hcaller.calls trivial trivial h

theorem worldSteps_notify (hcaller : CallerKeeps WorldSteps caller) {e : Edit}
    {listeners : List (Nat × Subscriber)}
    (h : Document.notify (notifyOne caller) e listeners w = .ok w') : WorldSteps w w' :=
  reactionsKeep_worldSteps.closed.notify hcaller.calls trivial (fun _ _ => trivial) h

theorem worldSteps_perform {depth : Nat} {c : Call} {outcome : Outcome}
    (h : perform (World.write depth) c w = .ok (outcome, w')) : WorldSteps w w' :=
  worldSteps_perform_of_writes _ (worldSteps_write depth) h

/-- Every call that comes to its end is a chain of steps. -/
theorem worldSteps_run {c : Call} {outcome : Outcome} (h : w.run c = .ok (outcome, w')) :
    WorldSteps w w' :=
  worldSteps_perform h

end World

/-! ## What stays as it is -/

namespace World

variable {α : Type} {π : Party → α} {w : World}

/-- A property of all parties that a change of one keeps. -/
theorem apply_party_modifyParty {f : Party → Party} (hf : ∀ party, π (f party) = π party)
    (p q : Nat) : π ((w.modifyParty p f).party q) = π (w.party q) := by
  by_cases h : q = p
  · subst h
    rw [party_modifyParty_self, hf]
  · rw [party_modifyParty_of_ne w f h]

theorem peer_modify (n : Network) (f : Endpoint → Endpoint) (hf : ∀ e, (f e).peer = e.peer)
    (id j : Nat) : ((n.modify id f).endpoint j).peer = (n.endpoint j).peer := by
  by_cases h : j = id
  · subst h
    rw [Network.modify, Network.endpoint, Table.get_modify_self, hf]
    rfl
  · rw [Network.modify, Network.endpoint, Table.get_modify_of_ne _ _ h]
    rfl

theorem peer_send (w : World) (p : Nat) (peer : PeerId) (m : Message) (id : Nat) :
    ((w.send p peer m).2.network.endpoint id).peer = (w.network.endpoint id).peer := by
  rw [endpoint_send]

theorem peer_receive (w : World) (p id : Nat) :
    ((w.receive p).2.network.endpoint id).peer = (w.network.endpoint id).peer := by
  unfold receive Network.receive
  dsimp only
  split
  · next arrival rest _ =>
      exact peer_modify w.network (fun e => { e with queue := rest }) (fun _ => rfl) _ id
  · rfl

theorem peer_disconnect (n : Network) (peer : PeerId) (id : Nat) :
    ((n.disconnect peer).endpoint id).peer = (n.endpoint id).peer := by
  have hleave : ∀ e, (Network.Endpoint.leave peer e).peer = e.peer := by
    intro e
    unfold Network.Endpoint.leave
    split
    · split <;> rfl
    · rfl
  unfold Network.disconnect
  split
  · simp only [Network.endpoint, Table.get, List.getElem?_map]
    cases n.endpoints.slots[id]? with
    | none => rfl
    | some e => exact hleave e
  · rfl

end World

namespace WorldStep

variable {α : Type} {w w' : World}

/-- What is not the phase, the events or the number of sessions of a party stays as it is. -/
theorem apply_party (h : WorldStep w w') {π : Party → α}
    (hphase : ∀ party phase, π { party with phase := phase } = π party)
    (hevents : ∀ party events, π { party with events := events } = π party)
    (hepochs : ∀ party epochs, π { party with epochs := epochs } = π party) (q : Nat) :
    π (w'.party q) = π (w.party q) := by
  have hsetPhase : ∀ (w : World) p phase, π ((w.setPhase p phase).party q) = π (w.party q) :=
    fun _ p phase => apply_party_modifyParty (fun party => hphase party phase) p q
  have hnextEpoch : ∀ (w : World) p, π ((w.nextEpoch p).2.party q) = π (w.party q) :=
    fun _ p => apply_party_modifyParty (fun party => hepochs party _) p q
  cases h with
  | text | unhook | note | disconnect | release | receive => rfl
  | emit p event => exact apply_party_modifyParty (fun party => hevents party _) p q
  | send p peer m => rw [party_send]
  | vacate p => rw [World.vacate, party_detach, hsetPhase]
  | stay | offer | absorb | retune => exact hsetPhase ..
  | suspend p l s => rw [World.suspend, party_detach, hsetPhase]
  | resume p epoch =>
      obtain ⟨heq, -⟩ | ⟨l, -, -, -, heq⟩ := w.resume_cases p epoch
      · rw [heq]
      · rw [heq]
        exact hsetPhase ..
  | initiate p d participants s => exact (hsetPhase ..).trans (hnextEpoch w p)
  | join p d o s => exact (hsetPhase ..).trans (hnextEpoch w p)

/-- Endpoints stay those of the same peers. -/
theorem peer_eq (h : WorldStep w w') (id : Nat) :
    (w'.network.endpoint id).peer = (w.network.endpoint id).peer := by
  cases h with
  | text | unhook | note | emit | stay | offer | absorb | retune | initiate | join => rfl
  | send p peer m => exact peer_send w p peer m id
  | receive p => exact peer_receive w p id
  | disconnect peer => exact peer_disconnect w.network peer id
  | release j => exact peer_modify w.network (fun e => { e with held := false }) (fun _ => rfl) j id
  | vacate p => rw [network_vacate]
  | suspend p l s => rw [World.suspend, network_detach, network_setPhase]
  | resume p epoch =>
      obtain ⟨heq, -⟩ | ⟨l, -, -, -, heq⟩ := w.resume_cases p epoch
      · rw [heq]
      · rw [heq]
        rfl

/-- No step removes a party. -/
theorem parties_length_le (h : WorldStep w w') :
    w.parties.slots.length ≤ w'.parties.slots.length := by
  have hmodify : ∀ (w : World) p f,
      w.parties.slots.length ≤ (w.modifyParty p f).parties.slots.length := by
    intro w p f
    rw [World.modifyParty, Table.length_modify]
    exact Nat.le_max_left ..
  have hdetach : ∀ (w : World) phase, (w.detach phase).parties = w.parties := by
    intro w phase
    obtain heq | ⟨l, id, -, -, heq⟩ := w.detach_cases phase
    · rw [heq]
    · rw [heq]
      rfl
  cases h with
  | text | unhook | note | receive | disconnect | release => exact Nat.le_refl _
  | emit | stay | offer | absorb | retune => exact hmodify ..
  | send p peer m =>
      rw [World.send_snd]
      split <;> exact Nat.le_refl _
  | vacate p =>
      rw [World.vacate, hdetach]
      exact hmodify ..
  | suspend p l s =>
      rw [World.suspend, hdetach]
      exact hmodify ..
  | resume p epoch =>
      obtain ⟨heq, -⟩ | ⟨l, -, -, -, heq⟩ := w.resume_cases p epoch
      · exact Nat.le_of_eq (by rw [heq])
      · rw [heq]
        exact hmodify (w.attach p epoch l.document).2 p _
  | initiate p d participants s =>
      exact Nat.le_trans (hmodify w p _) (hmodify ((w.nextEpoch p).2.attach p _ d).2 p _)
  | join p d o s => exact Nat.le_trans (hmodify w p _) (hmodify (w.nextEpoch p).2 p _)

end WorldStep

namespace WorldSteps

variable {w w' : World}

/-- What is not the phase, the events, the number of sessions or the lock of a party stays as
it is. -/
theorem apply_party {α : Type} (h : WorldSteps w w') {π : Party → α}
    (hphase : ∀ party phase, π { party with phase := phase } = π party)
    (hevents : ∀ party events, π { party with events := events } = π party)
    (hepochs : ∀ party epochs, π { party with epochs := epochs } = π party)
    (hwriting : ∀ party writing, π { party with writing := writing } = π party) (q : Nat) :
    π (w'.party q) = π (w.party q) := by
  induction h with
  | refl => rfl
  | single h => exact h.apply_party hphase hevents hepochs q
  | trans _ _ ih ih' => exact ih'.trans ih
  | writing p _ _ ih =>
      have hsetWriting : ∀ (w : World) writing,
          π ((w.setWriting p writing).party q) = π (w.party q) := fun _ writing =>
        apply_party_modifyParty (fun party => hwriting party writing) p q
      rw [hsetWriting, ih, hsetWriting]

/-- A party stays at its endpoint. -/
theorem endpoint_eq (h : WorldSteps w w') (q : Nat) :
    (w'.party q).endpoint = (w.party q).endpoint :=
  h.apply_party (π := Party.endpoint) (fun _ _ => rfl) (fun _ _ => rfl) (fun _ _ => rfl)
    (fun _ _ => rfl) q

theorem peer_eq (h : WorldSteps w w') (id : Nat) :
    (w'.network.endpoint id).peer = (w.network.endpoint id).peer := by
  induction h with
  | refl => rfl
  | single h => exact h.peer_eq id
  | trans _ _ ih ih' => exact ih'.trans ih
  | writing _ _ _ ih => exact ih

/-- A party keeps its identity. -/
theorem identity_eq (h : WorldSteps w w') (q : Nat) : w'.identity q = w.identity q := by
  rw [identity, h.endpoint_eq, h.peer_eq, identity]

/-- A party keeps to the same limits. -/
theorem limits_eq (h : WorldSteps w w') (q : Nat) : w'.limits q = w.limits q :=
  congrArg Config.limits (h.apply_party (π := Party.config) (fun _ _ => rfl) (fun _ _ => rfl)
    (fun _ _ => rfl) (fun _ _ => rfl) q)

theorem released_eq (h : WorldSteps w w') (q : Nat) :
    (w'.party q).released = (w.party q).released :=
  h.apply_party (π := Party.released) (fun _ _ => rfl) (fun _ _ => rfl) (fun _ _ => rfl)
    (fun _ _ => rfl) q

/-- A party writes after a chain of steps exactly when it did before. -/
theorem writing_eq (h : WorldSteps w w') (q : Nat) :
    (w'.party q).writing = (w.party q).writing := by
  induction h with
  | refl => rfl
  | single h =>
      exact h.apply_party (π := Party.writing) (fun _ _ => rfl) (fun _ _ => rfl) (fun _ _ => rfl) q
  | trans _ _ ih ih' => exact ih'.trans ih
  | @writing w w' p hfree _ ih =>
      by_cases hq : q = p
      · subst hq
        rw [World.setWriting, party_modifyParty_self, hfree]
      · rw [World.setWriting, party_modifyParty_of_ne _ _ hq, ih, World.setWriting,
          party_modifyParty_of_ne _ _ hq]

theorem parties_length_le (h : WorldSteps w w') :
    w.parties.slots.length ≤ w'.parties.slots.length := by
  refine h.invariant (P := fun v => w.parties.slots.length ≤ v.parties.slots.length)
    (fun hstep hv => Nat.le_trans hv hstep.parties_length_le) (fun {v} p writing hv => ?_)
    (Nat.le_refl _)
  rw [World.setWriting, World.modifyParty, Table.length_modify]
  exact Nat.le_trans hv (Nat.le_max_left ..)

end WorldSteps

end PairEdit.Session
