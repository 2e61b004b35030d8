import Mathlib.Tactic.Simps.Basic
import PairEdit.Proofs.Ledger
import PairEdit.Session.Run
import PairEdit.Session.World.Lemmas

/-!
# Two parties and what is on the way between them

The parties `0` and `1` sit at the endpoints of their own numbers, each with settings of
its own, and nobody else is on the network.  Any number of documents lies around, and only
the parties listen to them.  Of each party a `Post` is kept: its phase, how many sessions
it has begun, and the messages that were sent to it and not taken yet.  `Wired` says that a
world is made in this way, and every operation on such a world changes posts.
-/

namespace PairEdit.Session

open Function

/-- What may change about a party, and what is on the way to it. -/
structure Post where
  phase : Phase
  epochs : Nat
  /-- The messages as they were sent, oldest first. -/
  inbox : List Message

namespace Post

@[simps]
def setPhase (s : Post) (phase : Phase) : Post := { s with phase := phase }

@[simps]
def setEpochs (s : Post) (epochs : Nat) : Post := { s with epochs := epochs }

@[simps]
def setInbox (s : Post) (inbox : List Message) : Post := { s with inbox := inbox }

end Post

/-- The world has the two posts and nothing else that matters to them. -/
structure Wired (ids : Fin 2 → PeerId) (configs : Fin 2 → Config) (posts : Fin 2 → Post)
    (w : World) : Prop where
  phase_eq : ∀ p : Fin 2, w.phase p = (posts p).phase
  epochs_eq : ∀ p : Fin 2, (w.party p).epochs = (posts p).epochs
  endpoints_eq : w.network.endpoints.slots = List.ofFn fun p : Fin 2 =>
    ⟨ids p, (posts p).inbox.map fun m => .message (ids p.rev) m.payload, true, true⟩
  party : ∀ p : Fin 2, (w.party p).endpoint = p ∧ (w.party p).config = configs p
  surface : ∀ d, (w.surfaces.get d).hook = none ∧ (w.surfaces.get d).released = false
  /-- Who listens does it for a session that was begun, on the document of that session. -/
  listening : ∀ d, ∀ l ∈ (w.document d).listeners, ∃ (p : Fin 2) (epoch : Nat),
    l.2 = .capture p epoch ∧ epoch ≤ (posts p).epochs ∧
      ∀ s, (posts p).phase = .live s → s.epoch = epoch → s.document = d

namespace Wired

variable {ids : Fin 2 → PeerId} {configs : Fin 2 → Config} {posts : Fin 2 → Post} {w : World}
variable {p : Fin 2}

theorem endpoint_eq (h : Wired ids configs posts w) (p : Fin 2) : w.network.endpoint p =
    ⟨ids p, (posts p).inbox.map fun m => .message (ids p.rev) m.payload, true, true⟩ := by
  rw [Network.endpoint, Table.get, h.endpoints_eq, List.getElem?_ofFn, dif_pos p.isLt]
  rfl

theorem limits_eq (h : Wired ids configs posts w) (p : Fin 2) :
    w.limits p = (configs p).limits := by
  rw [World.limits, (h.party p).2]

theorem identity_eq (h : Wired ids configs posts w) (p : Fin 2) : w.identity p = ids p := by
  rw [World.identity, (h.party p).1, h.endpoint_eq]

/-- The document of no phase is gone, so leaving a phase lets go of nothing else. -/
theorem leave_eq_vacate (h : Wired ids configs posts w) (p : Nat) : w.leave p = w.vacate p :=
  World.leave_eq_vacate w p fun d _ => (h.surface d).2

/-! ## Operations on a party -/

theorem modifyParty (h : Wired ids configs posts w) (p : Fin 2) {f : Party → Party} {s : Post}
    (hf : ∀ party, (f party).endpoint = party.endpoint ∧ (f party).config = party.config)
    (hphase : (f (w.party p)).phase = s.phase) (hepochs : (f (w.party p)).epochs = s.epochs)
    (hinbox : s.inbox = (posts p).inbox) (hle : (posts p).epochs ≤ s.epochs)
    (hlive : ∀ l, s.phase = .live l → (posts p).phase = .live l ∨
      ∀ d, ∀ x ∈ (w.document d).listeners, x.2 = .capture p l.epoch → l.document = d) :
    Wired ids configs (update posts p s) (w.modifyParty p f) := by
  have hother : ∀ q : Fin 2, q ≠ p → (w.modifyParty p f).party q = w.party q := by
    intro q hne
    exact World.party_modifyParty_of_ne w f fun heq => hne (Fin.ext heq)
  refine ⟨?_, ?_, ?_, ?_, h.surface, ?_⟩
  · intro q
    rcases eq_or_ne q p with rfl | hne
    · rw [World.phase, World.party_modifyParty_self, hphase, update_self]
    · rw [World.phase, hother q hne, update_of_ne hne]
      exact h.phase_eq q
  · intro q
    rcases eq_or_ne q p with rfl | hne
    · rw [World.party_modifyParty_self, hepochs, update_self]
    · rw [hother q hne, update_of_ne hne]
      exact h.epochs_eq q
  · rw [World.network_modifyParty, h.endpoints_eq]
    congr 1
    funext q
    rcases eq_or_ne q p with rfl | hne
    · rw [update_self, hinbox]
    · rw [update_of_ne hne]
  · intro q
    rcases eq_or_ne q p with rfl | hne
    · rw [World.party_modifyParty_self, (hf _).1, (hf _).2]
      exact h.party q
    · rw [hother q hne]
      exact h.party q
  · intro d x hx
    obtain ⟨q, epoch, hcapture, hepoch, hdocument⟩ := h.listening d x hx
    refine ⟨q, epoch, hcapture, ?_⟩
    rcases eq_or_ne q p with rfl | hne
    · rw [update_self]
      refine ⟨Nat.le_trans hepoch hle, ?_⟩
      rintro l hl rfl
      rcases hlive l hl with hsame | hnew
      · exact hdocument l hsame rfl
      · exact hnew d x hx hcapture
    · rw [update_of_ne hne]
      exact ⟨hepoch, hdocument⟩

theorem party_phase_eq (h : Wired ids configs posts w) (p : Fin 2) :
    (w.party p).phase = (posts p).phase :=
  h.phase_eq p

/-- A party that goes into a live session listens to no other document for it. -/
theorem setPhase (h : Wired ids configs posts w) (p : Fin 2) (phase : Phase)
    (hlive : ∀ l, phase = .live l →
      ∀ d, ∀ x ∈ (w.document d).listeners, x.2 = .capture p l.epoch → l.document = d) :
    Wired ids configs (update posts p ((posts p).setPhase phase)) (w.setPhase p phase) :=
  h.modifyParty p (fun _ => ⟨rfl, rfl⟩) rfl (h.epochs_eq p) rfl (Nat.le_refl _)
    fun l hl => .inr (hlive l hl)

theorem emit (h : Wired ids configs posts w) (p : Fin 2) (event : Event) :
    Wired ids configs posts (w.emit p event) := by
  have hemit := h.modifyParty p (f := fun party => { party with events := party.events ++ [event] })
    (fun _ => ⟨rfl, rfl⟩) (h.party_phase_eq p) (h.epochs_eq p) rfl (Nat.le_refl _)
    fun _ hl => .inl hl
  rwa [update_eq_self] at hemit

theorem setWriting (h : Wired ids configs posts w) (p : Fin 2) (writing : Bool) :
    Wired ids configs posts (w.setWriting p writing) := by
  have hset := h.modifyParty p (f := fun party => { party with writing := writing })
    (fun _ => ⟨rfl, rfl⟩) (h.party_phase_eq p) (h.epochs_eq p) rfl (Nat.le_refl _)
    fun _ hl => .inl hl
  rwa [update_eq_self] at hset

theorem nextEpoch (h : Wired ids configs posts w) (p : Fin 2) :
    Wired ids configs (update posts p ((posts p).setEpochs ((posts p).epochs + 1)))
      (w.nextEpoch p).2 :=
  h.modifyParty p (fun _ => ⟨rfl, rfl⟩) (h.party_phase_eq p)
    (congrArg (· + 1) (h.epochs_eq p)) rfl (Nat.le_succ _) fun _ hl => .inl hl

theorem fst_nextEpoch (h : Wired ids configs posts w) (p : Fin 2) :
    (w.nextEpoch p).1 = (posts p).epochs + 1 :=
  congrArg (· + 1) (h.epochs_eq p)

/-! ## Operations on a document -/

theorem setDocument (h : Wired ids configs posts w) (d : Nat) (document : Document Subscriber)
    (hlisteners : ∀ l ∈ document.listeners, ∃ (p : Fin 2) (epoch : Nat),
      l.2 = .capture p epoch ∧ epoch ≤ (posts p).epochs ∧
        ∀ s, (posts p).phase = .live s → s.epoch = epoch → s.document = d) :
    Wired ids configs posts (w.setDocument d document) := by
  refine ⟨h.phase_eq, h.epochs_eq, h.endpoints_eq, h.party, ?_, ?_⟩
  · intro e
    rcases eq_or_ne e d with rfl | hne
    · simpa [World.setDocument] using h.surface e
    · simpa [World.setDocument, Table.get_modify_of_ne _ _ hne] using h.surface e
  · intro e l hl
    rcases eq_or_ne e d with rfl | hne
    · rw [World.document_setDocument_self] at hl
      exact hlisteners l hl
    · rw [World.document_setDocument_of_ne w document hne] at hl
      exact h.listening e l hl

theorem setText (h : Wired ids configs posts w) (d : Nat) (text : Text) :
    Wired ids configs posts (w.setDocument d { w.document d with text := text }) :=
  h.setDocument d _ (h.listening d)

theorem unlisten (h : Wired ids configs posts w) (d id : Nat) :
    Wired ids configs posts (w.unlisten d id) :=
  h.setDocument d _ fun l hl => h.listening d l ((List.mem_filter.1 hl).1)

theorem detach (h : Wired ids configs posts w) (phase : Phase) :
    Wired ids configs posts (w.detach phase) := by
  obtain heq | ⟨l, id, -, -, heq⟩ := w.detach_cases phase
  · rwa [heq]
  · rw [heq]
    exact h.unlisten l.document id

/-- A party listens for a session that was begun, on the document of that session. -/
theorem attach (h : Wired ids configs posts w) (p : Fin 2) (epoch d : Nat)
    (hepoch : epoch ≤ (posts p).epochs)
    (hlive : ∀ s, (posts p).phase = .live s → s.epoch = epoch → s.document = d) :
    Wired ids configs posts (w.attach p epoch d).2 := by
  refine h.setDocument d _ fun l hl => ?_
  rcases List.mem_append.1 hl with hold | hnew
  · exact h.listening d l hold
  · rw [List.mem_singleton] at hnew
    subst hnew
    exact ⟨p, epoch, rfl, hepoch, hlive⟩

/-- Whoever listens for the sessions of a party does it for one that was begun. -/
theorem epoch_le (h : Wired ids configs posts w) {d epoch : Nat} {x : Nat × Subscriber}
    (hx : x ∈ (w.document d).listeners) (hcapture : x.2 = .capture p epoch) :
    epoch ≤ (posts p).epochs := by
  obtain ⟨q, epoch', hcapture', hle, -⟩ := h.listening d x hx
  rw [hcapture, Subscriber.capture.injEq] at hcapture'
  obtain ⟨hpq, rfl⟩ := hcapture'
  rwa [Fin.ext hpq]

/-- A session may change in all but its epoch and its document. -/
theorem setLive (h : Wired ids configs posts w) {l : Live} (l' : Live)
    (hphase : (posts p).phase = .live l)
    (hepoch : l'.epoch = l.epoch) (hdocument : l'.document = l.document) :
    Wired ids configs (update posts p ((posts p).setPhase (.live l')))
      (w.setPhase p (.live l')) := by
  refine h.setPhase p (.live l') ?_
  rintro _ ⟨⟩ d x hx hcapture
  obtain ⟨q, epoch, hcapture', -, hlive⟩ := h.listening d x hx
  rw [hcapture, Subscriber.capture.injEq] at hcapture'
  obtain ⟨hpq, rfl⟩ := hcapture'
  obtain rfl := Fin.ext hpq
  rw [hdocument]
  exact hlive l hphase hepoch.symm

/-- A party that leaves its phase is idle. -/
theorem leave (h : Wired ids configs posts w) (p : Fin 2) :
    Wired ids configs (update posts p ((posts p).setPhase .idle)) (w.leave p) := by
  rw [h.leave_eq_vacate, World.vacate]
  exact (h.setPhase p .idle (by simp)).detach _

/-- After a write the party listens again. -/
theorem resume (h : Wired ids configs posts w) {l : Live} (hphase : (posts p).phase = .live l)
    (hepoch : l.epoch ≤ (posts p).epochs) :
    ∃ capture, Wired ids configs
      (update posts p ((posts p).setPhase (.live { l with capture := capture })))
      (w.resume p l.epoch) := by
  obtain ⟨heq, -⟩ | ⟨l', hlive, -, -, heq⟩ := w.resume_cases p l.epoch
  · refine ⟨l.capture, ?_⟩
    have hsame : (posts p).setPhase (.live { l with capture := l.capture }) = posts p := by
      rw [show ({ l with capture := l.capture } : Live) = l from rfl, ← hphase]
      rfl
    rwa [heq, hsame, update_eq_self]
  · rw [h.phase_eq, hphase] at hlive
    cases hlive
    have hattach := h.attach p l.epoch l.document hepoch (by
      intro s hs _
      rw [hphase] at hs
      cases hs
      rfl)
    rw [heq]
    exact ⟨some (w.attach p l.epoch l.document).1, hattach.setLive _ hphase rfl rfl⟩

/-! ## The network -/

theorem setInbox (h : Wired ids configs posts w) (p : Fin 2) (inbox : List Message)
    {f : Endpoint → Endpoint}
    (hf : f (w.network.endpoint p) = { w.network.endpoint p with
      queue := inbox.map fun m => .message (ids p.rev) m.payload }) :
    Wired ids configs (update posts p ((posts p).setInbox inbox))
      { w with network := w.network.modify p f } := by
  have hendpoints := h.endpoints_eq
  have hendpoint := h.endpoint_eq p
  have hkept : ∀ q, (update posts p ((posts p).setInbox inbox) q).phase = (posts q).phase ∧
      (update posts p ((posts p).setInbox inbox) q).epochs = (posts q).epochs := by
    intro q
    rcases eq_or_ne q p with rfl | hne
    · rw [update_self]
      exact ⟨rfl, rfl⟩
    · rw [update_of_ne hne]
      exact ⟨rfl, rfl⟩
  refine ⟨?_, ?_, ?_, h.party, h.surface, ?_⟩
  · intro q
    rw [(hkept q).1]
    exact h.phase_eq q
  · intro q
    rw [(hkept q).2]
    exact h.epochs_eq q
  · rw [hendpoint] at hf
    match p with
    | 0 =>
        simp_all [Network.modify, Table.modify, Table.set, Network.endpoint, Table.get,
          List.ofFn_succ]
    | 1 =>
        simp_all [Network.modify, Table.modify, Table.set, Network.endpoint, Table.get,
          List.ofFn_succ]
  · intro d l hl
    obtain ⟨q, epoch, hcapture, hepoch, hdocument⟩ := h.listening d l hl
    refine ⟨q, epoch, hcapture, ?_⟩
    rw [(hkept q).1, (hkept q).2]
    exact ⟨hepoch, hdocument⟩

/-- A peer's endpoint is found by its identity. -/
theorem attached?_eq (h : Wired ids configs posts w) (hids : ids 0 ≠ ids 1) (p : Fin 2) :
    w.network.attached? (ids p) = some (p : Nat) := by
  match p with
  | 0 => simp [Network.attached?, h.endpoints_eq, List.ofFn_succ, List.findIdx?_cons]
  | 1 => simp [Network.attached?, h.endpoints_eq, List.ofFn_succ, List.findIdx?_cons, hids]

/-- Bytes go to the end of the queue of the peer. -/
theorem transmit (h : Wired ids configs posts w) (hids : ids 0 ≠ ids 1) (p : Fin 2) (m : Message) :
    ∃ w', w.transmit p (ids p.rev) m.payload = (.ok (), w') ∧
      Wired ids configs (update posts p.rev
        ((posts p.rev).setInbox ((posts p.rev).inbox ++ [m]))) w' := by
  have hdeliver := h.setInbox p.rev ((posts p.rev).inbox ++ [m])
    (f := Network.Endpoint.deliver (.message (ids p) m.payload)) (by
      rw [h.endpoint_eq p.rev, Network.Endpoint.deliver]
      simp)
  refine ⟨_, ?_, hdeliver⟩
  simp only [World.transmit, Network.send, (h.party p).1, h.endpoint_eq, Network.isConnected,
    h.attached?_eq hids, Option.isSome_some, Bool.not_true, Bool.false_eq_true, if_false, if_true]

/-- A message to the peer is sent when it keeps to the limits. -/
theorem send (h : Wired ids configs posts w) (hids : ids 0 ≠ ids 1) (p : Fin 2) (m : Message) :
    Wired ids configs (update posts p.rev ((posts p.rev).setInbox
      ((posts p.rev).inbox ++ m.leaving (configs p).limits))) (w.send p (ids p.rev) m).2 := by
  rw [World.send, Message.leaving, h.limits_eq]
  cases hencode : m.encode (configs p).limits with
  | error reason =>
      have hsame : (posts p.rev).setInbox ((posts p.rev).inbox ++ []) = posts p.rev := by
        rw [List.append_nil]
        rfl
      dsimp only
      rwa [hsame, update_eq_self]
  | ok bytes =>
      obtain ⟨w', htransmit, hw'⟩ := h.transmit hids p m
      rw [Message.eq_payload_of_encode hencode]
      dsimp only
      rw [htransmit]
      exact hw'

/-- Whether a message to the peer is sent depends on the limits alone. -/
theorem fst_send (h : Wired ids configs posts w) (hids : ids 0 ≠ ids 1) (p : Fin 2) (m : Message) :
    (w.send p (ids p.rev) m).1 = match m.encode (configs p).limits with
      | .ok _ => .ok ()
      | .error reason => .error (.sync reason) := by
  rw [World.send, h.limits_eq]
  cases hencode : m.encode (configs p).limits with
  | error reason => rfl
  | ok bytes =>
      obtain ⟨w', htransmit, -⟩ := h.transmit hids p m
      rw [Message.eq_payload_of_encode hencode]
      dsimp only
      rw [htransmit]

theorem receive_of_nil (h : Wired ids configs posts w) (hinbox : (posts p).inbox = []) :
    w.receive p = (.ok none, w) := by
  simp [World.receive, (h.party p).1, Network.receive, h.endpoint_eq, hinbox]

theorem receive_of_cons (h : Wired ids configs posts w) {m : Message} {rest : List Message}
    (hinbox : (posts p).inbox = m :: rest) :
    ∃ w', w.receive p = (.ok (some (.message (ids p.rev) m.payload)), w') ∧
      Wired ids configs (update posts p ((posts p).setInbox rest)) w' := by
  have hrest := h.setInbox p rest
    (f := fun e => { e with queue := rest.map fun m => .message (ids p.rev) m.payload }) rfl
  refine ⟨_, ?_, hrest⟩
  simp [World.receive, (h.party p).1, Network.receive, h.endpoint_eq, hinbox]

end Wired

end PairEdit.Session
