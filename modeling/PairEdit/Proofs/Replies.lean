import PairEdit.Proofs.Draining
import PairEdit.Proofs.Headroom
import PairEdit.Proofs.Roles

/-!
# What an arrival is answered with

A party that handles an arrival answers with one `Stop` at most, in whatever phase it is.  This
needs that nobody reacts to the edits that are written meanwhile, neither a document nor a
listener of the host, and that no other party captures them.
-/

namespace PairEdit.Session

open World

variable {w w' v : World} {p q d depth : Nat} {target : Option Nat}

/-! ## Endpoints stay attached -/

namespace World

theorem attached_vacate (w : World) (p id : Nat) :
    ((w.vacate p).network.endpoint id).attached = (w.network.endpoint id).attached := by
  rw [network_vacate]

theorem attached_collect (w : World) (id : Nat) :
    (w.collect.network.endpoint id).attached = (w.network.endpoint id).attached := by
  have hclosed : ReleaseClosed fun w w' : World =>
      (w'.network.endpoint id).attached = (w.network.endpoint id).attached :=
    { refl := fun _ => rfl
      trans := fun h h' => h'.trans h
      unhook := fun _ _ => rfl
      vacate := fun _ => attached_vacate ..
      release := fun w i =>
        attached_modify w.network (fun e => { e with held := false }) (fun _ => rfl) i id }
  exact hclosed.collect w

theorem attached_leave (w : World) (p id : Nat) :
    ((w.leave p).network.endpoint id).attached = (w.network.endpoint id).attached := by
  obtain heq | heq := w.leave_cases p
  · rw [heq, attached_vacate]
  · rw [heq, attached_collect, attached_vacate]

end World

/-! ## Replies -/

/-- A party says `Stop` where the target is, and no message arrives elsewhere.  Nobody begins a
session or takes in an edit. -/
structure Reply (p : Nat) (target : Option Nat) (w w' : World) : Prop where
  queue : ∀ id, (w'.network.endpoint id).queue = (w.network.endpoint id).queue ++
    if target = some id then [.message (w.identity p) Message.stop.payload] else []
  attached : ∀ id, (w'.network.endpoint id).attached = (w.network.endpoint id).attached
  identity : ∀ q, w'.identity q = w.identity q
  waits : ∀ c, w'.Waits c → w.Waits c
  document : ∀ q d, (w'.phase q).document = some d → (w.phase q).document = some d
  room : ∀ q n chars, (w.phase q).HasRoom n chars → (w'.phase q).HasRoom n chars

namespace Reply

/-- One reply after another, of which one at least says nothing. -/
theorem append {first second : Option Nat} (h : Reply p first w v) (h' : Reply p second v w')
    (htarget : ∀ id, (first = some id ∨ second = some id) ↔ target = some id)
    (hone : first = none ∨ second = none) : Reply p target w w' where
  queue id := by
    rw [h'.queue, h.queue, h.identity, List.append_assoc]
    rcases hone with rfl | rfl <;> simp [← htarget id]
  attached id := (h'.attached id).trans (h.attached id)
  identity q := (h'.identity q).trans (h.identity q)
  waits c hc := h.waits c (h'.waits c hc)
  document q d hd := h.document q d (h'.document q d hd)
  room q n chars hroom := h'.room q n chars (h.room q n chars hroom)

theorem trans (h : Reply p none w v) (h' : Reply p target v w') : Reply p target w w' :=
  h.append h' (fun _ => by simp) (.inl rfl)

theorem trans_none (h : Reply p target w v) (h' : Reply p none v w') : Reply p target w w' :=
  h.append h' (fun _ => by simp) (.inr rfl)

/-- Nobody is told anything, and parties become idle at most. -/
theorem of_silent (p : Nat) (h : Silent w w') (h' : Subsides w w')
    (hattached : ∀ id, (w'.network.endpoint id).attached = (w.network.endpoint id).attached) :
    Reply p none w w' where
  queue id := by
    rw [h.queue]
    simp
  attached := hattached
  identity := h.identity_eq
  waits c := h.waits
  document q d hd := by
    obtain heq | hidle := h'.phase q
    · rwa [heq] at hd
    · rw [hidle] at hd
      cases hd
  room q n chars hroom := by
    obtain heq | hidle := h'.phase q
    · rwa [heq]
    · rw [hidle]
      exact hroom.arrivals_le

/-- A document or its listeners change, but nobody captures who did not. -/
theorem of_apart (p : Nat) (h : Apart w w') (hnetwork : w'.network = w.network) :
    Reply p none w w' where
  queue id := by
    rw [hnetwork]
    simp
  attached id := by rw [hnetwork]
  identity q := by rw [World.identity, h.party, h.peer, World.identity]
  waits := h.waits
  document q d hd := by rwa [h.phase_eq] at hd
  room q n chars hroom := by rwa [h.phase_eq]

theorem refl (p : Nat) (w : World) : Reply p none w w := of_apart p (.refl w) rfl

theorem leave (w : World) (p q : Nat) : Reply p none w (w.leave q) :=
  of_silent p (.leave w q) (.leave w q) (w.attached_leave q)

theorem setWriting (w : World) (p : Nat) (writing : Bool) :
    Reply p none w (w.setWriting p writing) :=
  of_silent p (.setWriting ..) (.of_phase_eq (phase_setWriting w p writing)) fun _ => rfl

theorem detach (w : World) (p : Nat) (phase : Phase) : Reply p none w (w.detach phase) :=
  of_silent p (.detach ..) (.of_phase_eq (phase_detach w phase)) fun _ => by rw [network_detach]

theorem emit (w : World) (p : Nat) (event : Event) : Reply p none w (w.emit p event) where
  queue id := by simp
  attached _ := rfl
  identity := (WorldSteps.single (.emit w p event)).identity_eq
  waits _ := waits_emit
  document q d hd := by rwa [phase_emit] at hd
  room q n chars hroom := by rwa [phase_emit]

theorem send (w : World) (p : Nat) (peer : PeerId) :
    Reply p (w.sendTarget p peer .stop) w (w.send p peer .stop).2 where
  queue id := by rw [endpoint_send]
  attached id := by rw [endpoint_send]
  identity := (WorldSteps.single (.send w p peer .stop)).identity_eq
  waits _ := waits_send
  document q d hd := by rwa [phase_send] at hd
  room q n chars hroom := by rwa [phase_send]

/-- Ending a session or an offer. -/
theorem of_endRun (h : EndRun p w w') : ∃ target, Reply p target w w' := by
  cases h with
  | none => exact ⟨none, refl p w⟩
  | left => exact ⟨none, (leave w p p).trans (emit _ p _)⟩
  | told peer => exact ⟨_, (leave w p p).trans ((emit _ p _).trans (send _ p peer))⟩

theorem handleStop (w : World) (p : Nat) (sender : PeerId) :
    Reply p none w (w.handleStop p sender) := by
  unfold World.handleStop
  split
  · exact (leave w p p).trans (emit _ p _)
  · exact refl p w

/-- A session that captures again is otherwise the same. -/
theorem resume (w : World) (p epoch : Nat) : Reply p none w (w.resume p epoch) := by
  have hsilent := Silent.resume w p epoch
  have hphase : ∀ q, (w.resume p epoch).phase q = w.phase q ∨ ∃ l capture, w.phase q = .live l ∧
      (w.resume p epoch).phase q = .live { l with capture := capture } := by
    intro q
    obtain ⟨heq, -⟩ | ⟨l, hlive, -, -, heq⟩ := w.resume_cases p epoch
    · exact .inl (by rw [heq])
    · rw [heq]
      by_cases hq : q = p
      · subst hq
        exact .inr ⟨l, _, hlive, phase_setPhase_self ..⟩
      · exact .inl (phase_setPhase_of_ne _ _ hq)
  refine ⟨fun id => by rw [hsilent.queue]; simp, fun id => ?_, hsilent.identity_eq,
    fun _ => hsilent.waits, fun q d hd => ?_, fun q n chars hroom => ?_⟩
  · obtain ⟨heq, -⟩ | ⟨l, -, -, -, heq⟩ := w.resume_cases p epoch
    · rw [heq]
    · rw [heq]
      rfl
  · obtain heq | ⟨l, capture, hlive, heq⟩ := hphase q
    · rwa [heq] at hd
    · rw [heq] at hd
      rw [hlive]
      exact hd
  · obtain heq | ⟨l, capture, hlive, heq⟩ := hphase q
    · rwa [heq]
    · rw [hlive] at hroom
      rw [heq]
      exact hroom

end Reply

/-! ## Writes to which nobody reacts -/

section Writes

variable (caller : Caller) (e : Edit)

/-- Listeners of hosts are called, and call nobody. -/
theorem exists_notify (hinert : ∀ c, ¬ w.Waits c) {listeners : List (Nat × Subscriber)}
    (hnone : ∀ l ∈ listeners, l.2.isCapture = false) (p : Nat) :
    ∃ w', Document.notify (notifyOne caller) e listeners w = .ok w' ∧ Reply p none w w' := by
  induction listeners generalizing w with
  | nil => exact ⟨w, rfl, .refl p w⟩
  | cons l rest ih =>
      obtain ⟨id, subscriber⟩ := l
      cases subscriber with
      | capture q epoch => cases hnone _ List.mem_cons_self
      | host i =>
          have hone : ∃ v, notifyOne caller e (.host i) w = .ok v ∧ Reply p none w v := by
            cases hscript : w.scripts.get i with
            | nil => exact ⟨w, by simp only [notifyOne, hscript], .refl p w⟩
            | cons now later =>
                have hnow : now = [] := List.eq_nil_iff_forall_not_mem.2 fun c hc =>
                  hinert c (.inr ⟨i, now, hscript ▸ List.mem_cons_self, hc⟩)
                refine ⟨_, ?_, .of_apart p (.useUp hscript) rfl⟩
                simp only [notifyOne, hscript, hnow]
                rfl
          obtain ⟨v, hv, hreply⟩ := hone
          obtain ⟨w', hrest, hreply'⟩ := ih (fun c hc => hinert c (hreply.waits c hc))
            fun l hl => hnone l (List.mem_cons_of_mem _ hl)
          exact ⟨w', bind_eq_ok_iff.2 ⟨v, hv, hrest⟩, hreply.trans hreply'⟩

theorem exists_commit (hinert : ∀ c, ¬ w.Waits c) (hnone : captures (w.document d) = [])
    (p : Nat) :
    ∃ result w', w.commit caller d e = .ok (result, w') ∧ Reply p none w w' := by
  unfold commit Document.replaceIn
  dsimp only
  split
  · exact ⟨_, w, rfl, .refl p w⟩
  · next text _ =>
      have htext := Reply.of_apart p (.text w d text) rfl
      obtain ⟨w', hnotify, hreply⟩ := exists_notify caller e
        (fun c hc => hinert c (htext.waits c hc))
        (fun l hl => Bool.eq_false_iff.2 (List.filter_eq_nil_iff.1 hnone l hl)) p
      exact ⟨_, w', bind_eq_ok_iff.2 ⟨w', hnotify, rfl⟩, htext.trans hreply⟩

/-- A write comes to its end, and nobody is told who does not listen for a host. -/
theorem exists_write (hinert : ∀ c, ¬ w.Waits c) (hnone : captures (w.document d) = [])
    (depth p : Nat) :
    ∃ result w', World.write depth d e w = .ok (result, w') ∧ Reply p none w w' := by
  rw [write_eq]
  unfold writeVia
  cases hhook : (w.surfaces.get d).hook with
  | none => exact exists_commit _ e hinert hnone p
  | some hook =>
      have hcalls : hook.calls = [] := List.eq_nil_iff_forall_not_mem.2 fun c hc =>
        hinert c (.inl ⟨d, hook, hhook, hc⟩)
      have hfire := Apart.fire w d hook
      have hreply := Reply.of_apart p hfire rfl
      simp only [hcalls, makeAll, bind, Except.bind]
      cases hook.rejection with
      | some reason => exact ⟨_, _, rfl, hreply⟩
      | none =>
          obtain ⟨result, w', hcommit, hcommitted⟩ := exists_commit _ e
            (fun c hc => hinert c (hreply.waits c hc)) ((hfire.captures_eq d).trans hnone) p
          exact ⟨result, w', hcommit, hreply.trans hcommitted⟩

end Writes

/-! ## Handling an arrival -/

/-- Nobody writes, nobody will react to an edit, and no document is shared by two parties. -/
structure World.Peaceful (w : World) : Prop where
  arises : w.Arises
  writing : ∀ q, (w.party q).writing = false
  waits : ∀ c, ¬ w.Waits c
  eq_of_document : ∀ p q d, (w.phase p).document = some d → (w.phase q).document = some d → p = q

/-- While an edit of the peer is written, nobody captures it when nobody else shares the
document. -/
theorem Subscribed.captures_suspend (h : Subscribed w) {l : Live} (hlive : w.phase p = .live l)
    (halone : ∀ q, (w.phase q).document = some l.document → q = p) (s : Strategy) :
    captures (((w.suspend p l s).setWriting p true).document l.document) = [] := by
  have hsubscribed : Subscribed (w.suspend p l s) := h.suspend hlive
  refine List.filter_eq_nil_iff.2 fun listener hmem => ?_
  obtain ⟨id, subscriber⟩ := listener
  cases subscriber with
  | host i => exact Bool.false_ne_true
  | capture q epoch =>
      obtain ⟨l', hlive', hdocument, hcapture, -⟩ :=
        hsubscribed.capturesWith l.document id q epoch hmem
      by_cases hq : q = p
      · subst hq
        rw [phase_suspend_self] at hlive'
        cases hlive'
        cases hcapture
      · rw [World.suspend, phase_detach, phase_setPhase_of_ne w _ hq] at hlive'
        refine absurd (halone q ?_) hq
        rw [hlive']
        exact congrArg some hdocument

theorem World.Peaceful.captures_suspend (h : w.Peaceful) {l : Live} (hlive : w.phase p = .live l)
    (s : Strategy) :
    captures (((w.suspend p l s).setWriting p true).document l.document) = [] := by
  refine h.arises.subscribed.captures_suspend hlive (fun q hq => ?_) s
  exact h.eq_of_document q p l.document hq (by rw [hlive]; rfl)

/-- The edit of a peer is written, and the session goes on or ends. -/
theorem World.Peaceful.exists_writeRemote (h : w.Peaceful) {l : Live} (hlive : w.phase p = .live l)
    (s : Strategy) (e : Edit) (sender : PeerId) (first : Bool) (depth : Nat) :
    ∃ result w' target,
      World.writeRemote (World.write depth)
        (w.setPhase p (.live { l with strategy := s, confirmed := true, capture := none }))
        p sender l.epoch l.document e l.capture first = .ok (result, w') ∧
      Reply p target
        (w.setPhase p (.live { l with strategy := s, confirmed := true, capture := none })) w' := by
  generalize hset : w.setPhase p (.live { l with
    strategy := s, confirmed := true, capture := none }) = w₀
  have hsuspend : Reply p none w₀ ((w.suspend p l s).setWriting p true) := by
    rw [World.suspend, hset]
    exact (Reply.detach w₀ p (.live l)).trans (.setWriting _ p true)
  have hinert : ∀ c, ¬ ((w.suspend p l s).setWriting p true).Waits c := fun c hc =>
    h.waits c ((hset ▸ hsuspend).waits c hc)
  obtain ⟨written, w₁, hwrite, hreply⟩ :=
    exists_write e hinert (h.captures_suspend hlive s) depth p
  have hresumed : Reply p none w₀ (w₁.resume p l.epoch) :=
    hsuspend.trans (hreply.trans (.resume w₁ p l.epoch))
  rw [← hset, writeRemote_setPhase]
  cases written with
  | error reason =>
      obtain ⟨target, hended⟩ :=
        Reply.of_endRun (.endSession (w₁.resume p l.epoch) p l.epoch .invalidOperation)
      refine ⟨_, _, target, bind_eq_ok_iff.2 ⟨_, hwrite, rfl⟩, hset ▸ ?_⟩
      exact hresumed.trans (hended.trans_none (.setWriting _ p false))
  | ok =>
      refine ⟨_, _, none, bind_eq_ok_iff.2 ⟨_, hwrite, rfl⟩, hset ▸ ?_⟩
      have htold : Reply p none (w₁.resume p l.epoch)
          (if first then (w₁.resume p l.epoch).emit p (.confirmed sender)
            else w₁.resume p l.epoch) := by
        split
        · exact .emit ..
        · exact .refl p _
      exact hresumed.trans (htold.trans (.setWriting _ p false))

/-- How long the text is that an update is checked against. -/
def World.sharedLength (w : World) (p : Nat) : Nat :=
  match w.phase p with
  | .live l => (w.document l.document).length
  | _ => 0

/-- An update that no number is too small for is taken in, or answered with a `Stop`. -/
theorem World.Peaceful.exists_handleUpdate (h : w.Peaceful) {sender : PeerId} {u : Update}
    {incoming : Incoming} {phase : Phase}
    (hreceive : (w.phase p).receive? (w.limits p) sender u (w.sharedLength p) =
      some (incoming, phase)) (depth : Nat) :
    ∃ result w' target, w.handleUpdate (World.write depth) p sender u = .ok (result, w') ∧
      (∀ d, phase.document = some d → (w.phase p).document = some d) ∧
      Reply p target (w.setPhase p phase) w' := by
  unfold handleUpdate
  rw [if_neg (by rw [h.writing]; exact Bool.false_ne_true)]
  have hfound := orOverflow_eq_ok_iff.2 hreceive
  have hreception := Reception.of_receive? hreceive
  obtain ⟨before, hphase⟩ : ∃ before, before = w.phase p := ⟨_, rfl⟩
  rw [← hphase] at hreception
  cases hreception with
  | ignored | buffered =>
      exact ⟨_, _, none, bind_eq_ok_iff.2 ⟨_, hfound, rfl⟩, nofun, .refl p _⟩
  | outsider =>
      exact ⟨_, _, none, bind_eq_ok_iff.2 ⟨_, hfound, rfl⟩, fun _ hd => hphase ▸ hd, .refl p _⟩
  | endOffer o text n =>
      obtain ⟨target, hreply⟩ := Reply.of_endRun (.endOffer
        (w.setPhase p (.offered { o with buffer := text, buffered := n })) p sender
        .invalidOperation)
      exact ⟨_, _, target, bind_eq_ok_iff.2 ⟨_, hfound, rfl⟩, nofun, hreply⟩
  | endSession l s reason =>
      obtain ⟨target, hreply⟩ := Reply.of_endRun (.endSession
        (w.setPhase p (.live { l with strategy := s })) p l.epoch .invalidOperation)
      exact ⟨_, _, target, bind_eq_ok_iff.2 ⟨_, hfound, rfl⟩, fun _ hd => hphase ▸ hd, hreply⟩
  | write l s e =>
      obtain ⟨result, w', target, hwritten, hreply⟩ :=
        h.exists_writeRemote hphase.symm s e sender (!l.confirmed) depth
      exact ⟨result, w', target, bind_eq_ok_iff.2 ⟨_, hfound, hwritten⟩,
        fun _ hd => hphase ▸ hd, hreply⟩

end PairEdit.Session

namespace PairEdit

/-- How many characters an update inserts that is read in what arrived. -/
def Arrival.insertedChars (limits : Limits) : Arrival → Nat
  | .message _ payload =>
      match Message.decode limits payload with
      | .ok (.update u) => u.edit.ins.length
      | _ => 0
  | .disconnected _ => 0

/-- A `Stop` has arrived, or bytes in which no message is read. -/
def Arrival.Fruitless (limits : Limits) (a : Arrival) : Prop :=
  ∃ sender payload, a = .message sender payload ∧
    (Message.decode limits payload = .ok .stop ∨
      ∃ reason, Message.decode limits payload = .error reason)

theorem Arrival.fruitless_stop (limits : Limits) (sender : PeerId) :
    Fruitless limits (.message sender Message.stop.payload) := by
  refine ⟨sender, _, rfl, ?_⟩
  have hread : Envelope.ofBytes? Message.stop.payload = some ⟨protocolVersion, .stop⟩ := by
    decide +kernel
  unfold Message.decode
  split
  · exact .inr ⟨_, rfl⟩
  · simp only [hread]
    exact .inl rfl

/-- A message that is read in it is a `Stop`. -/
theorem Arrival.Fruitless.eq_stop {limits : Limits} {sender : PeerId} {payload : Bytes}
    {m : Message} (h : Fruitless limits (.message sender payload))
    (hdecode : Message.decode limits payload = .ok m) : m = .stop := by
  obtain ⟨_, _, ⟨⟩, hstop | ⟨reason, herror⟩⟩ := h
  · cases hstop.symm.trans hdecode
    rfl
  · cases herror.symm.trans hdecode

theorem Arrival.Fruitless.insertedChars_eq {limits : Limits} {a : Arrival}
    (h : a.Fruitless limits) : a.insertedChars limits = 0 := by
  obtain ⟨sender, payload, rfl, hdecode | ⟨reason, hdecode⟩⟩ := h
  · simp only [insertedChars, hdecode]
  · simp only [insertedChars, hdecode]

namespace Session

open World

variable {w w' : World} {p depth : Nat} {target : Option Nat} {a : Arrival}

/-- What a party makes of an arrival.  It says `Stop` where the target is, has the room for other
arrivals that it had for this one, and shares no other document than before. -/
structure Answer (p : Nat) (a : Arrival) (target : Option Nat) (w w' : World) : Prop where
  target_eq_none : a.Fruitless (w.limits p) → target = none
  queue : ∀ id, (w'.network.endpoint id).queue = (w.network.endpoint id).queue ++
    if target = some id then [.message (w.identity p) Message.stop.payload] else []
  attached : ∀ id, (w'.network.endpoint id).attached = (w.network.endpoint id).attached
  waits : ∀ c, w'.Waits c → w.Waits c
  document : ∀ q d, (w'.phase q).document = some d → (w.phase q).document = some d
  room : ∀ n chars, (w.phase p).HasRoom (n + 1) (chars + a.insertedChars (w.limits p)) →
    (w'.phase p).HasRoom n chars
  room_of_ne : ∀ q, q ≠ p → ∀ n chars, (w.phase q).HasRoom n chars →
    (w'.phase q).HasRoom n chars

namespace Answer

/-- The party goes on in a phase, and then replies. -/
theorem of_setPhase {phase : Phase} (h : Reply p target (w.setPhase p phase) w')
    (hdocument : ∀ d, phase.document = some d → (w.phase p).document = some d)
    (hroom : ∀ n chars, (w.phase p).HasRoom (n + 1) (chars + a.insertedChars (w.limits p)) →
      phase.HasRoom n chars)
    (htarget : a.Fruitless (w.limits p) → target = none) : Answer p a target w w' where
  target_eq_none := htarget
  queue id := by rw [h.queue, identity_setPhase, network_setPhase]
  attached := h.attached
  waits := h.waits
  document q d hd := by
    have hset := h.document q d hd
    by_cases hq : q = p
    · subst hq
      rw [phase_setPhase_self] at hset
      exact hdocument d hset
    · rwa [phase_setPhase_of_ne w phase hq] at hset
  room n chars hbefore := by
    refine h.room p n chars ?_
    rw [phase_setPhase_self]
    exact hroom n chars hbefore
  room_of_ne q hq n chars hbefore := by
    refine h.room q n chars ?_
    rwa [phase_setPhase_of_ne w phase hq]

theorem of_reply (h : Reply p target w w') (htarget : a.Fruitless (w.limits p) → target = none) :
    Answer p a target w w' where
  target_eq_none := htarget
  queue := h.queue
  attached := h.attached
  waits := h.waits
  document := h.document
  room n chars hroom :=
    h.room p n chars (hroom.mono (Nat.le_succ n) (Nat.le_add_right ..))
  room_of_ne q _ := h.room q

/-- An offer is kept, refused or ignored. -/
theorem handleStart (w : World) (p : Nat) (sender : PeerId) {offer : Start} {payload : Bytes}
    (hdecode : Message.decode (w.limits p) payload = .ok (.start offer)) :
    ∃ target, Answer p (.message sender payload) target w (w.handleStart p sender offer).2 := by
  have hfruitful : ¬ Arrival.Fruitless (w.limits p) (.message sender payload) :=
    fun h => Message.noConfusion (h.eq_stop hdecode)
  have hsame : Answer p (.message sender payload) none w w := of_reply (.refl p w) fun _ => rfl
  obtain ⟨-, reason, heq⟩ | ⟨-, -, ⟨hidle, heq⟩ | ⟨-, heq⟩⟩ := w.handleStart_cases p sender offer
  · rw [heq]
    exact ⟨none, hsame⟩
  · rw [heq]
    refine ⟨none, of_setPhase (.emit _ p _) nofun (fun n chars hroom => ?_) fun _ => rfl⟩
    rw [hidle] at hroom
    have hcount : n + 1 ≤ Word.max := hroom.arrivals_le
    have hbuffered : (Offered.ofStart offer).buffered = 0 := rfl
    exact Nat.le_trans (by rw [hbuffered, Nat.zero_add]; exact Nat.le_succ n) hcount
  · rw [heq]
    exact ⟨_, of_reply ((Reply.emit w p _).trans (.send _ p sender))
      fun hfruitless => absurd hfruitless hfruitful⟩

end Answer

/-- Every arrival is answered, unless a number is too small for an update. -/
theorem World.Peaceful.exists_answer (h : w.Peaceful)
    (hlegible : ∀ sender payload u, a = .message sender payload →
      Message.decode (w.limits p) payload = .ok (.update u) →
      ∃ r, (w.phase p).receive? (w.limits p) sender u (w.sharedLength p) = some r)
    (depth : Nat) :
    ∃ result w' target, w.handleArrival (World.write depth) p a = .ok (result, w') ∧
      Answer p a target w w' := by
  cases a with
  | disconnected peer =>
      obtain ⟨target, hreply⟩ := Reply.of_endRun (.handleDisconnect w p peer)
      exact ⟨_, _, target, rfl, .of_reply hreply (by rintro ⟨_, _, ⟨⟩, -⟩)⟩
  | message sender payload =>
      simp only [handleArrival, handleMessage]
      cases hdecode : Message.decode (w.limits p) payload with
      | error reason => exact ⟨_, _, none, rfl, .of_reply (.refl p w) fun _ => rfl⟩
      | ok m =>
          cases m with
          | start offer =>
              obtain ⟨target, hanswer⟩ := Answer.handleStart w p sender hdecode
              exact ⟨_, _, target, rfl, hanswer⟩
          | stop =>
              exact ⟨_, _, none, rfl, .of_reply (.handleStop w p sender) fun _ => rfl⟩
          | update u =>
              obtain ⟨⟨incoming, phase⟩, hreceive⟩ := hlegible sender payload u rfl hdecode
              obtain ⟨result, w', target, hupdate, hdocument, hreply⟩ :=
                h.exists_handleUpdate hreceive depth
              refine ⟨result, w', target, hupdate, .of_setPhase hreply hdocument ?_ ?_⟩
              · intro n chars hroom
                have hchars : Arrival.insertedChars (w.limits p) (.message sender payload) =
                    u.edit.ins.length := by
                  simp only [Arrival.insertedChars, hdecode]
                rw [hchars] at hroom
                obtain ⟨incoming', phase', hreceive', hphase⟩ :=
                  hroom.exists_receive? (w.limits p) sender (w.sharedLength p)
                cases hreceive.symm.trans hreceive'
                exact hphase
              · exact fun hfruitless => Message.noConfusion (hfruitless.eq_stop hdecode)

/-- Whatever handling an arrival comes to, it is an answer. -/
theorem World.Peaceful.answer (h : w.Peaceful) {result : Except ShareError Unit}
    (harrival : w.handleArrival (World.write depth) p a = .ok (result, w')) :
    ∃ target, Answer p a target w w' := by
  obtain ⟨_, _, target, hsame, hanswer⟩ := h.exists_answer (p := p) (a := a) (by
    rintro sender payload u rfl hdecode
    simp only [handleArrival, handleMessage, hdecode, handleUpdate] at harrival
    rw [if_neg (by rw [h.writing]; exact Bool.false_ne_true)] at harrival
    obtain ⟨r, hreceive, -⟩ := bind_eq_ok_iff.1 harrival
    exact ⟨r, orOverflow_eq_ok_iff.1 hreceive⟩) depth
  cases hsame.symm.trans harrival
  exact ⟨target, hanswer⟩

/-- A party that has room for an arrival handles it. -/
theorem World.Peaceful.exists_handleArrival (h : w.Peaceful) {n chars : Nat}
    (hroom : (w.phase p).HasRoom (n + 1) (chars + a.insertedChars (w.limits p))) (depth : Nat) :
    ∃ result w', w.handleArrival (World.write depth) p a = .ok (result, w') := by
  obtain ⟨result, w', -, harrival, -⟩ := h.exists_answer (p := p) (a := a) (by
    rintro sender payload u rfl hdecode
    simp only [Arrival.insertedChars, hdecode] at hroom
    obtain ⟨incoming, phase, hreceive, -⟩ :=
      hroom.exists_receive? (w.limits p) sender (w.sharedLength p)
    exact ⟨_, hreceive⟩) depth
  exact ⟨result, w', harrival⟩

end Session

end PairEdit
