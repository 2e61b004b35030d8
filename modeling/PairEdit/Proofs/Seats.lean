import Mathlib.Logic.Function.Basic
import Mathlib.Tactic.Simps.Basic
import PairEdit.Session.Run
import PairEdit.Session.View
import PairEdit.Session.World.Lemmas

/-!
# Two parties at their seats

The parties `0` and `1` each sit at the endpoint and in front of the document of their
own number, and nobody else is on the network.  The host's listeners do nothing, and no
document has a hook.  What can still change is kept in two seats: `Furnished` says that
a world is made of its two seats in this way, and every operation on such a world
changes one seat.
-/

namespace PairEdit.Session

open Function

/-- Whether a listener captures local edits for a party. -/
def Subscriber.isCapture : Subscriber → Bool
  | .capture .. => true
  | .host _ => false

/-- The listeners of a document that capture local edits. -/
def captures (d : Document Subscriber) : List (Nat × Subscriber) :=
  d.listeners.filter fun l => l.2.isCapture

theorem captures_unlisten (d : Document Subscriber) (id : Nat) :
    captures (d.unlisten id).2 = (captures d).filter fun l => l.1 != id := by
  simp only [captures, Document.unlisten, List.filter_filter]
  exact List.filter_congr fun l _ => Bool.and_comm _ _

theorem captures_listen (d : Document Subscriber) (s : Subscriber) :
    captures (d.listen s).2 = captures d ++ if s.isCapture then [(d.nextId, s)] else [] := by
  simp only [captures, Document.listen, List.filter_append, List.filter_cons, List.filter_nil]

/-- What may change about a party, its document and its endpoint. -/
structure Seat where
  phase : Phase
  writing : Bool
  events : List Event
  text : Text
  captures : List (Nat × Subscriber)
  queue : List Arrival

namespace Seat

@[simps]
def setPhase (s : Seat) (phase : Phase) : Seat := { s with phase := phase }

@[simps]
def setWriting (s : Seat) (writing : Bool) : Seat := { s with writing := writing }

@[simps]
def setEvents (s : Seat) (events : List Event) : Seat := { s with events := events }

@[simps]
def setText (s : Seat) (text : Text) : Seat := { s with text := text }

@[simps]
def setCaptures (s : Seat) (captures : List (Nat × Subscriber)) : Seat :=
  { s with captures := captures }

@[simps]
def setQueue (s : Seat) (queue : List Arrival) : Seat := { s with queue := queue }

end Seat

namespace World

/-- The seats of a world, by number. -/
def seats (w : World) (p : Nat) : Seat where
  phase := w.phase p
  writing := (w.party p).writing
  events := (w.party p).events
  text := (w.document p).text
  captures := captures (w.document p)
  queue := (w.network.endpoint p).queue

theorem seats_modifyParty (w : World) (p : Nat) (f : Party → Party) :
    (w.modifyParty p f).seats = update w.seats p ((((w.seats p).setPhase
      (f (w.party p)).phase).setWriting (f (w.party p)).writing).setEvents
      (f (w.party p)).events) := by
  funext q
  rcases eq_or_ne q p with rfl | hne
  · simp only [seats, phase, party_modifyParty_self, document_modifyParty, network_modifyParty,
      update_self]
    rfl
  · simp [seats, phase, update_of_ne hne, party_modifyParty_of_ne w f hne]

theorem seats_setDocument (w : World) (d : Nat) (document : Document Subscriber) :
    (w.setDocument d document).seats = update w.seats d
      (((w.seats d).setText document.text).setCaptures (captures document)) := by
  funext q
  rcases eq_or_ne q d with rfl | hne
  · simp only [seats, phase, party_setDocument, document_setDocument_self, network_setDocument,
      update_self]
    rfl
  · simp [seats, phase, update_of_ne hne, document_setDocument_of_ne w document hne]

theorem seats_modifyNetwork (w : World) (p : Nat) (f : Endpoint → Endpoint) :
    { w with network := w.network.modify p f }.seats = update w.seats p
      ((w.seats p).setQueue (f (w.network.endpoint p)).queue) := by
  funext q
  rcases eq_or_ne q p with rfl | hne
  · simp only [seats, phase, party, document, Network.endpoint, Network.modify,
      Table.get_modify_self, update_self]
    rfl
  · simp [seats, phase, party, document, Network.endpoint, Network.modify, update_of_ne hne,
      Table.get_modify_of_ne _ _ hne]

end World

/-- The world has the two seats and nothing else that may change. -/
structure Furnished (ids : Nat → PeerId) (config : Config) (seats : Nat → Seat) (w : World) :
    Prop where
  seats_eq : w.seats = seats
  endpoints_eq : w.network.endpoints.slots =
    [⟨ids 0, (seats 0).queue, true, true⟩, ⟨ids 1, (seats 1).queue, true, true⟩]
  party : ∀ p < 2, (w.party p).endpoint = p ∧ (w.party p).config = config
  surface : ∀ p < 2, (w.surfaces.get p).hook = none ∧ (w.surfaces.get p).released = false
  passive : ∀ i, ∀ calls ∈ w.scripts.get i, calls = []

namespace Furnished

variable {ids : Nat → PeerId} {config : Config} {seats : Nat → Seat} {w : World}
variable {p q d epoch : Nat}

theorem phase_eq (h : Furnished ids config seats w) (p : Nat) : w.phase p = (seats p).phase := by
  rw [← h.seats_eq]
  rfl

theorem party_phase_eq (h : Furnished ids config seats w) (p : Nat) :
    (w.party p).phase = (seats p).phase :=
  h.phase_eq p

theorem writing_eq (h : Furnished ids config seats w) (p : Nat) :
    (w.party p).writing = (seats p).writing := by
  rw [← h.seats_eq]
  rfl

theorem events_eq (h : Furnished ids config seats w) (p : Nat) :
    (w.party p).events = (seats p).events := by
  rw [← h.seats_eq]
  rfl

theorem text_eq (h : Furnished ids config seats w) (d : Nat) :
    (w.document d).text = (seats d).text := by
  rw [← h.seats_eq]
  rfl

theorem captures_eq (h : Furnished ids config seats w) (d : Nat) :
    captures (w.document d) = (seats d).captures := by
  rw [← h.seats_eq]
  rfl

theorem endpoint_eq (h : Furnished ids config seats w) (hp : p < 2) :
    w.network.endpoint p = ⟨ids p, (seats p).queue, true, true⟩ := by
  have hendpoints := h.endpoints_eq
  match p, hp with
  | 0, _ => simp [Network.endpoint, Table.get, hendpoints]
  | 1, _ => simp [Network.endpoint, Table.get, hendpoints]

theorem limits_eq (h : Furnished ids config seats w) (hp : p < 2) :
    w.limits p = config.limits := by
  rw [World.limits, (h.party p hp).2]

theorem identity_eq (h : Furnished ids config seats w) (hp : p < 2) : w.identity p = ids p := by
  rw [World.identity, (h.party p hp).1, h.endpoint_eq hp]

/-! ## Operations on a party -/

theorem modifyParty (h : Furnished ids config seats w) {f : Party → Party} {s : Seat}
    (hf : ∀ party, (f party).endpoint = party.endpoint ∧ (f party).config = party.config)
    (hs : s = (((seats p).setPhase (f (w.party p)).phase).setWriting
      (f (w.party p)).writing).setEvents (f (w.party p)).events) :
    Furnished ids config (update seats p s) (w.modifyParty p f) := by
  refine ⟨by rw [World.seats_modifyParty, h.seats_eq, hs], ?_, ?_, h.surface, h.passive⟩
  · rw [World.network_modifyParty, h.endpoints_eq, hs]
    rcases eq_or_ne p 0 with rfl | h0
    · simp
    · rcases eq_or_ne p 1 with rfl | h1
      · simp
      · simp [update_of_ne h0.symm, update_of_ne h1.symm]
  · intro q hq
    rcases eq_or_ne q p with rfl | hne
    · rw [World.party_modifyParty_self, (hf _).1, (hf _).2]
      exact h.party q hq
    · rw [World.party_modifyParty_of_ne w f hne]
      exact h.party q hq

theorem setPhase (h : Furnished ids config seats w) (p : Nat) (phase : Phase) :
    Furnished ids config (update seats p ((seats p).setPhase phase))
      (w.setPhase p phase) :=
  h.modifyParty (fun _ => ⟨rfl, rfl⟩) (by rw [h.writing_eq, h.events_eq]; rfl)

theorem emit (h : Furnished ids config seats w) (p : Nat) (event : Event) :
    Furnished ids config (update seats p ((seats p).setEvents ((seats p).events ++ [event])))
      (w.emit p event) :=
  h.modifyParty (fun _ => ⟨rfl, rfl⟩) (by rw [h.party_phase_eq, h.writing_eq, h.events_eq]; rfl)

theorem setWriting (h : Furnished ids config seats w) (p : Nat) (writing : Bool) :
    Furnished ids config (update seats p ((seats p).setWriting writing))
      (w.setWriting p writing) :=
  h.modifyParty (fun _ => ⟨rfl, rfl⟩) (by rw [h.party_phase_eq, h.events_eq]; rfl)

theorem nextEpoch (h : Furnished ids config seats w) (p : Nat) :
    Furnished ids config seats (w.nextEpoch p).2 := by
  have hnext := h.modifyParty (p := p) (s := seats p)
    (f := fun party => { party with epochs := (w.party p).epochs + 1 })
    (fun _ => ⟨rfl, rfl⟩) (by rw [h.party_phase_eq, h.writing_eq, h.events_eq]; rfl)
  rwa [update_eq_self] at hnext

theorem readEvents (h : Furnished ids config seats w) (p : Nat) :
    Furnished ids config (update seats p ((seats p).setEvents [])) (w.readEvents p).2 :=
  h.modifyParty (fun _ => ⟨rfl, rfl⟩) (by rw [h.party_phase_eq, h.writing_eq]; rfl)

/-! ## Operations on a document -/

theorem setDocument (h : Furnished ids config seats w) (d : Nat) (document : Document Subscriber) :
    Furnished ids config (update seats d
      (((seats d).setText document.text).setCaptures (Session.captures document)))
      (w.setDocument d document) := by
  refine ⟨by rw [World.seats_setDocument, h.seats_eq], ?_, h.party, ?_, h.passive⟩
  · rw [World.network_setDocument, h.endpoints_eq]
    rcases eq_or_ne d 0 with rfl | h0
    · simp
    · rcases eq_or_ne d 1 with rfl | h1
      · simp
      · simp [update_of_ne h0.symm, update_of_ne h1.symm]
  · intro q hq
    rcases eq_or_ne q d with rfl | hne
    · simpa [World.setDocument] using h.surface q hq
    · simpa [World.setDocument, Table.get_modify_of_ne _ _ hne] using h.surface q hq

theorem unlisten (h : Furnished ids config seats w) (d id : Nat) :
    Furnished ids config (update seats d
      ((seats d).setCaptures ((seats d).captures.filter fun l => l.1 != id)))
      (w.unlisten d id) := by
  have hunlisten := h.setDocument d ((w.document d).unlisten id).2
  rwa [captures_unlisten, h.captures_eq,
    show ((w.document d).unlisten id).2.text = (seats d).text from h.text_eq d] at hunlisten

theorem listen (h : Furnished ids config seats w) (d : Nat) (s : Subscriber) :
    Furnished ids config (update seats d ((seats d).setCaptures ((seats d).captures ++
      if s.isCapture then [((w.document d).nextId, s)] else [])))
      (w.setDocument d ((w.document d).listen s).2) := by
  have hlisten := h.setDocument d ((w.document d).listen s).2
  rwa [captures_listen, h.captures_eq,
    show ((w.document d).listen s).2.text = (seats d).text from h.text_eq d] at hlisten

theorem attach (h : Furnished ids config seats w) (p epoch d : Nat) :
    Furnished ids config (update seats d ((seats d).setCaptures
      ((seats d).captures ++ [((w.attach p epoch d).1, .capture p epoch)])))
      (w.attach p epoch d).2 :=
  h.listen d (.capture p epoch)

theorem setScripts (h : Furnished ids config seats w) {scripts : Table (List (List Call))}
    (hscripts : ∀ i, ∀ calls ∈ scripts.get i, calls = []) :
    Furnished ids config seats { w with scripts := scripts } :=
  ⟨h.seats_eq, h.endpoints_eq, h.party, h.surface, hscripts⟩

/-! ## The network -/

theorem modifyNetwork (h : Furnished ids config seats w) (hp : p < 2) {f : Endpoint → Endpoint}
    {queue : List Arrival}
    (hf : f (w.network.endpoint p) = { w.network.endpoint p with queue := queue }) :
    Furnished ids config (update seats p ((seats p).setQueue queue))
      { w with network := w.network.modify p f } := by
  have hendpoints := h.endpoints_eq
  have hendpoint := h.endpoint_eq hp
  refine ⟨?_, ?_, h.party, h.surface, h.passive⟩
  · rw [World.seats_modifyNetwork, h.seats_eq, hf]
  · rw [hendpoint] at hf
    match p, hp with
    | 0, _ => simp_all [Network.modify, Table.modify, Table.set, Network.endpoint, Table.get]
    | 1, _ => simp_all [Network.modify, Table.modify, Table.set, Network.endpoint, Table.get]

/-- A peer's endpoint is found by its identity. -/
theorem attached?_eq (h : Furnished ids config seats w) (hids : ids 0 ≠ ids 1) (hp : p < 2) :
    w.network.attached? (ids p) = some p := by
  match p, hp with
  | 0, _ => simp [Network.attached?, h.endpoints_eq, List.findIdx?_cons]
  | 1, _ => simp [Network.attached?, h.endpoints_eq, List.findIdx?_cons, hids]

/-- Bytes go to the end of the queue of the peer. -/
theorem transmit (h : Furnished ids config seats w) (hids : ids 0 ≠ ids 1) (hp : p < 2)
    (hq : q < 2) (payload : Bytes) :
    ∃ w', w.transmit p (ids q) payload = (.ok (), w') ∧
      Furnished ids config (update seats q
        ((seats q).setQueue ((seats q).queue ++ [.message (ids p) payload]))) w' := by
  have hqueue : Network.Endpoint.deliver (.message (ids p) payload) (w.network.endpoint q) =
      { w.network.endpoint q with
        queue := (seats q).queue ++ [.message (ids p) payload] } := by
    rw [h.endpoint_eq hq, Network.Endpoint.deliver]
  have hdeliver := h.modifyNetwork hq hqueue
  refine ⟨_, ?_, hdeliver⟩
  simp [World.transmit, Network.send, (h.party p hp).1, h.endpoint_eq hp, h.endpoint_eq hq,
    Network.isConnected, h.attached?_eq hids hp, h.attached?_eq hids hq]

theorem send (h : Furnished ids config seats w) (hids : ids 0 ≠ ids 1) (hp : p < 2)
    (hq : q < 2) {m : Message} {payload : Bytes} (hm : m.encode config.limits = .ok payload) :
    ∃ w', w.send p (ids q) m = (.ok (), w') ∧
      Furnished ids config (update seats q
        ((seats q).setQueue ((seats q).queue ++ [.message (ids p) payload]))) w' := by
  obtain ⟨w', htransmit, hw'⟩ := h.transmit hids hp hq payload
  refine ⟨w', ?_, hw'⟩
  rw [World.send, h.limits_eq hp, hm]
  simp only [htransmit]

theorem send_of_error (h : Furnished ids config seats w) (hp : p < 2) {m : Message}
    {reason : SyncError} (hm : m.encode config.limits = .error reason) (peer : PeerId) :
    w.send p peer m = (.error (.sync reason), w) := by
  rw [World.send, h.limits_eq hp, hm]

theorem receive_of_nil (h : Furnished ids config seats w) (hp : p < 2)
    (hqueue : (seats p).queue = []) : w.receive p = (.ok none, w) := by
  simp [World.receive, (h.party p hp).1, Network.receive, h.endpoint_eq hp, hqueue]

theorem receive_of_cons (h : Furnished ids config seats w) (hp : p < 2) {arrival : Arrival}
    {rest : List Arrival} (hqueue : (seats p).queue = arrival :: rest) :
    ∃ w', w.receive p = (.ok (some arrival), w') ∧
      Furnished ids config (update seats p ((seats p).setQueue rest)) w' := by
  have hrest := h.modifyNetwork hp (f := fun e => { e with queue := rest }) rfl
  refine ⟨_, ?_, hrest⟩
  simp [World.receive, (h.party p hp).1, Network.receive, h.endpoint_eq hp, hqueue]

end Furnished

end PairEdit.Session
