import PairEdit.Proofs.OffsetCalls

/-!
# Worlds with earlier events and arrivals

A `LogOffset` is a list of events of one party, with a list of arrivals for each endpoint: an
offset that leaves sessions and documents alone.  So every call comes to the same on two worlds
that differ by it, and leaves worlds that differ by it, as long as the parties that take arrivals
have none in it.
-/

namespace PairEdit.Session

/-! ## Earlier events and arrivals -/

/-- What was told to the host of a party, and what arrived at each endpoint. -/
structure LogOffset where
  party : Nat
  events : List Event
  queue : Nat → List Arrival

namespace LogOffset

/-- A party with the offset. -/
def onParty (x : LogOffset) (q : Nat) (party : Party) : Party :=
  if q = x.party then { party with events := x.events ++ party.events } else party

/-- An endpoint with the offset. -/
def onEndpoint (x : LogOffset) (id : Nat) (e : Endpoint) : Endpoint :=
  { e with queue := x.queue id ++ e.queue }

/-- The world with the offset. -/
def on (x : LogOffset) (w : World) : World :=
  { w with
    parties := w.parties.adjust x.onParty
    network := ⟨w.network.endpoints.adjust x.onEndpoint⟩ }

/-- The offset is one of parties and endpoints that exist, and no party that may take arrivals
has any in it. -/
structure Fits (x : LogOffset) (takes : Nat → Prop) (w : World) : Prop where
  party_lt : x.party < w.parties.slots.length
  queue_eq_nil : ∀ id, w.network.endpoints.slots.length ≤ id → x.queue id = []
  taker : ∀ q, takes q → x.queue (w.party q).endpoint = []
  waiting : ∀ c, w.Waits c → ∀ q, c.taker? = some q → takes q

variable {x : LogOffset} {takes : Nat → Prop} {w w' : World} {p q d : Nat}

theorem onParty_eq_self (hfits : x.Fits takes w) (hq : w.parties.slots.length ≤ q) (party : Party) :
    x.onParty q party = party := by
  have hlt := hfits.party_lt
  exact if_neg fun h : q = x.party => by omega

theorem onEndpoint_eq_self {id : Nat} (h : x.queue id = []) (e : Endpoint) :
    x.onEndpoint id e = e := by
  simp [onEndpoint, h]

section Queries

variable (x w p)

/-- Only the events of a party can differ. -/
theorem party_on {α : Type} (π : Party → α)
    (hπ : ∀ party events, π { party with events := events } = π party) :
    π ((x.on w).party p) = π (w.party p) := by
  refine Table.apply_get_adjust π (fun q party => ?_) p
  unfold onParty
  split
  · exact hπ ..
  · rfl

theorem phase_on : (x.on w).phase p = w.phase p := party_on x w p Party.phase fun _ _ => rfl

theorem limits_on : (x.on w).limits p = w.limits p :=
  congrArg Config.limits (party_on x w p Party.config fun _ _ => rfl)

theorem writing_on : ((x.on w).party p).writing = (w.party p).writing :=
  party_on x w p Party.writing fun _ _ => rfl

/-- Only what arrived at an endpoint can differ. -/
theorem endpoint_on {α : Type} (π : Endpoint → α)
    (hπ : ∀ e queue, π { e with queue := queue } = π e) (id : Nat) :
    π ((x.on w).network.endpoint id) = π (w.network.endpoint id) :=
  Table.apply_get_adjust (g := x.onEndpoint) π (fun _ e => hπ e _) id

theorem identity_on : (x.on w).identity p = w.identity p := by
  rw [World.identity, party_on x w p Party.endpoint fun _ _ => rfl,
    endpoint_on x w Endpoint.peer fun _ _ => rfl, World.identity]

theorem attached?_on (peer : PeerId) :
    (x.on w).network.attached? peer = w.network.attached? peer :=
  Network.attached?_adjust (g := x.onEndpoint) (fun _ _ => rfl) (fun _ _ => rfl) peer

theorem route_on (peer : PeerId) : (x.on w).route p peer = w.route p peer := by
  simp only [World.route, Network.isConnected, identity_on, attached?_on,
    endpoint_on x w Endpoint.held fun _ _ => rfl]

end Queries

/-! ## As an offset in general -/

/-- The offset in general, with no sessions and listeners in it. -/
def offset (x : LogOffset) : Offset where
  events q := if q = x.party then x.events else []
  epochs _ := 0
  queue := x.queue
  number _ id := id

theorem onParty_offset (q : Nat) (party : Party) :
    x.offset.onParty q party = x.onParty q party := by
  have hphase : x.offset.onPhase q party.phase = party.phase := by
    cases party.phase with
    | idle => rfl
    | offered o => rfl
    | live l => simp [Offset.onPhase, Offset.onLive, offset]
  have hepochs : x.offset.epochs q + party.epochs = party.epochs := Nat.zero_add _
  rw [Offset.onParty, hphase, hepochs, onParty]
  by_cases hq : q = x.party
  · simp [offset, hq]
  · simp [offset, hq]

theorem onSurface_offset (d : Nat) (s : Surface) : x.offset.onSurface d s = s := by
  have hsubscriber : ∀ subscriber, x.offset.onSubscriber subscriber = subscriber := by
    intro subscriber
    cases subscriber with
    | host i => rfl
    | capture q epoch => exact congrArg (Subscriber.capture q) (Nat.zero_add epoch)
  simp only [Offset.onSurface, Offset.onDocument, hsubscriber]
  simp [offset]

theorem on_offset (w : World) : x.offset.on w = x.on w := by
  have hparties : x.offset.onParty = x.onParty := funext fun q => funext (onParty_offset q)
  have hsurfaces : w.surfaces.adjust x.offset.onSurface = w.surfaces :=
    Table.ext_get (Table.length_adjust ..) fun d => by
      rw [Table.get_adjust fun e _ => onSurface_offset e _, onSurface_offset]
  rw [Offset.on, hparties, hsurfaces]
  rfl

theorem Fits.offset (h : x.Fits takes w) : x.offset.Fits takes w where
  events_eq_nil q hq := if_neg fun heq : q = x.party => by
    have hlt := h.party_lt
    omega
  epochs_eq_zero _ _ := rfl
  queue_eq_nil := h.queue_eq_nil
  number_one _ _ := rfl
  number_injective _ := Function.injective_id
  number_succ _ _ _ := rfl
  taker := h.taker
  waiting := h.waiting

/-- The second world is the first one with the offset. -/
structure Follows (takes : Nat → Prop) (x : LogOffset) (w w' : World) : Prop where
  eq : w' = x.on w
  fits : x.Fits takes w

theorem Follows.offset (h : x.Follows takes w w') : x.offset.Follows takes w w' :=
  ⟨h.eq.trans (on_offset w).symm, h.fits.offset⟩

theorem Follows.of_offset (h : x.offset.Follows takes w w')
    (hlt : x.party < w.parties.slots.length) : x.Follows takes w w' :=
  ⟨h.eq.trans (on_offset w), hlt, h.fits.queue_eq_nil, h.fits.taker, h.fits.waiting⟩

end LogOffset

end PairEdit.Session
