import Mathlib.Data.List.Basic
import PairEdit.Proofs.WorldSteps

/-!
# Worlds that differ by an offset

No call looks at the events that a host has not read yet.  The epoch of a session and the number
of a listener are only compared with others of the same party and document.  And only three
calls look at what has arrived at an endpoint: those that take it from there.

An offset is what a world may have from before: events and epochs of each party, arrivals at each
endpoint, and for each document the numbers that its listeners have.  A world is like another with
an offset if that is all that tells them apart.  What is found in the two is then the same up to
the offset, and whatever is done to both leaves them alike.
-/

namespace PairEdit

/-! ## Changes of all slots -/

namespace Table

/-- Change every slot in the list. -/
def adjust {α : Type} (t : Table α) (g : Nat → α → α) : Table α := ⟨t.slots.mapIdx g⟩

@[simp]
theorem length_adjust {α : Type} (t : Table α) (g : Nat → α → α) :
    (t.adjust g).slots.length = t.slots.length := by
  simp [adjust]

theorem map_slots_adjust {α β : Type} {t : Table α} {g : Nat → α → α} (π : α → β)
    (hπ : ∀ i a, π (g i a) = π a) : (t.adjust g).slots.map π = t.slots.map π := by
  refine List.ext_getElem (by simp) fun i hi hi' => ?_
  simp [adjust, hπ]

variable {α β : Type} [Inhabited α] {t : Table α} {g : Nat → α → α}

theorem ext_get {t' : Table α} (hlen : t.slots.length = t'.slots.length)
    (hget : ∀ i, t.get i = t'.get i) : t = t' := by
  obtain ⟨slots⟩ := t
  obtain ⟨slots'⟩ := t'
  refine congrArg Table.mk (List.ext_getElem hlen fun i h h' => ?_)
  simpa [get, h, h'] using hget i

theorem get_adjust_of_lt {i : Nat} (h : i < t.slots.length) :
    (t.adjust g).get i = g i (t.get i) := by
  simp [adjust, get, h]

theorem get_adjust_of_le {i : Nat} (h : t.slots.length ≤ i) : (t.adjust g).get i = t.get i := by
  rw [get_of_le h, get_of_le (by simpa using h)]

/-- Slots past the list are not changed, so it is enough that the change keeps the default
there. -/
theorem get_adjust (hg : ∀ j, t.slots.length ≤ j → g j default = default) (i : Nat) :
    (t.adjust g).get i = g i (t.get i) := by
  rcases Nat.lt_or_ge i t.slots.length with h | h
  · exact get_adjust_of_lt h
  · rw [get_adjust_of_le h, get_of_le h, hg i h]

/-- A property that the change keeps is found in every slot as before. -/
theorem apply_get_adjust (π : α → β) (hπ : ∀ i a, π (g i a) = π a) (i : Nat) :
    π ((t.adjust g).get i) = π (t.get i) := by
  rcases Nat.lt_or_ge i t.slots.length with h | h
  · rw [get_adjust_of_lt h, hπ]
  · rw [get_adjust_of_le h]

/-- What is done to one slot commutes with a change of all slots. -/
theorem modify_adjust {i : Nat} {f f' : α → α} (hf : ∀ a, f' (g i a) = g i (f a))
    (hg : ∀ j, t.slots.length ≤ j → g j default = default) :
    (t.adjust g).modify i f' = (t.modify i f).adjust g := by
  refine ext_get (by simp [length_modify]) fun j => ?_
  have hg' : ∀ j, (t.modify i f).slots.length ≤ j → g j default = default := fun j hj =>
    hg j (by rw [length_modify] at hj; omega)
  rw [get_adjust hg']
  by_cases h : j = i
  · subst h
    rw [get_modify_self, get_modify_self, get_adjust hg, hf]
  · rw [get_modify_of_ne _ _ h, get_modify_of_ne _ _ h, get_adjust hg]

end Table

/-- What is changed about queues alone does not matter for where a peer is attached. -/
theorem Network.attached?_adjust {endpoints : Table Endpoint} {g : Nat → Endpoint → Endpoint}
    (hattached : ∀ id e, (g id e).attached = e.attached) (hpeer : ∀ id e, (g id e).peer = e.peer)
    (peer : PeerId) :
    Network.attached? ⟨endpoints.adjust g⟩ peer = Network.attached? ⟨endpoints⟩ peer := by
  have hmap : ∀ slots : List Endpoint, (slots.findIdx? fun e => e.attached && e.peer == peer) =
      (slots.map fun e => (e.attached, e.peer)).findIdx? fun e => e.1 && e.2 == peer := by
    intro slots
    rw [List.findIdx?_map]
    rfl
  rw [Network.attached?, Network.attached?, hmap, hmap,
    Table.map_slots_adjust _ fun id e => by rw [hattached, hpeer]]

namespace Session

/-! ## Runs that come to the same -/

/-- Two runs break off for the same reason, or come to related results. -/
inductive Lifts {α β : Type} (R : α → β → Prop) : Except Fault α → Except Fault β → Prop where
  | ok {a : α} {b : β} (h : R a b) : Lifts R (.ok a) (.ok b)
  | error {fault : Fault} : Lifts R (.error fault) (.error fault)

namespace Lifts

variable {α α' β β' : Type} {R : α → α' → Prop} {S : β → β' → Prop}

theorem refl (r : Except Fault α) : Lifts Eq r r := by
  cases r with
  | error => exact .error
  | ok a => exact .ok rfl

theorem bind {r : Except Fault α} {r' : Except Fault α'} {next : α → Except Fault β}
    {next' : α' → Except Fault β'} (h : Lifts R r r')
    (hnext : ∀ a a', R a a' → Lifts S (next a) (next' a')) :
    Lifts S (r >>= next) (r' >>= next') := by
  cases h with
  | ok h => exact hnext _ _ h
  | error => exact .error

theorem orOverflow (o : Option α) (f : α → β) :
    Lifts (fun a b => b = f a) (orOverflow o) (orOverflow (o.map f)) := by
  cases o with
  | none => exact .error
  | some a => exact .ok rfl

theorem mono {R' : α → α' → Prop} {r : Except Fault α} {r' : Except Fault α'} (h : Lifts R r r')
    (hR : ∀ a a', R a a' → R' a a') : Lifts R' r r' := by
  cases h with
  | ok h => exact .ok (hR _ _ h)
  | error => exact .error

end Lifts

/-- A call that takes arrivals only of those parties that may. -/
def MayMake (takes : Nat → Prop) (c : Call) : Prop := ∀ q, c.taker? = some q → takes q

/-! ## Offsets -/

/-- What was told to the host of each party and how many sessions it had, what arrived at each
endpoint, and which numbers the listeners of each document have. -/
structure Offset where
  events : Nat → List Event
  epochs : Nat → Nat
  queue : Nat → List Arrival
  number : Nat → Nat → Nat

namespace Offset

/-- A session after those of the offset. -/
def onLive (x : Offset) (q : Nat) (l : Live) : Live :=
  { l with epoch := x.epochs q + l.epoch, capture := l.capture.map (x.number l.document) }

/-- A phase of a party with the offset. -/
def onPhase (x : Offset) (q : Nat) : Phase → Phase
  | .idle => .idle
  | .offered o => .offered o
  | .live l => .live (x.onLive q l)

/-- A party with the offset. -/
def onParty (x : Offset) (q : Nat) (party : Party) : Party :=
  { party with
    phase := x.onPhase q party.phase
    epochs := x.epochs q + party.epochs
    events := x.events q ++ party.events }

/-- A listener in a world with the offset. -/
def onSubscriber (x : Offset) : Subscriber → Subscriber
  | .capture q epoch => .capture q (x.epochs q + epoch)
  | .host i => .host i

/-- A document with the offset. -/
def onDocument (x : Offset) (d : Nat) (document : Document Subscriber) : Document Subscriber where
  text := document.text
  listeners := document.listeners.map fun l => (x.number d l.1, x.onSubscriber l.2)
  nextId := x.number d document.nextId

/-- A document and its hook with the offset. -/
def onSurface (x : Offset) (d : Nat) (s : Surface) : Surface :=
  { s with document := x.onDocument d s.document }

/-- An endpoint with the offset. -/
def onEndpoint (x : Offset) (id : Nat) (e : Endpoint) : Endpoint :=
  { e with queue := x.queue id ++ e.queue }

/-- What an update calls for with the offset. -/
def onIncoming (x : Offset) (q : Nat) : Incoming → Incoming
  | .endSession epoch reason => .endSession (x.epochs q + epoch) reason
  | .write epoch d e capture first =>
      .write (x.epochs q + epoch) d e (capture.map (x.number d)) first
  | incoming => incoming

/-- The world with the offset. -/
def on (x : Offset) (w : World) : World :=
  { w with
    parties := w.parties.adjust x.onParty
    surfaces := w.surfaces.adjust x.onSurface
    network := ⟨w.network.endpoints.adjust x.onEndpoint⟩ }

/-- The offset is one of parties, documents and endpoints that exist.  No two listeners have one
number in it, and the numbers that come next come one after another.  No party that may take
arrivals has any in it. -/
structure Fits (x : Offset) (takes : Nat → Prop) (w : World) : Prop where
  events_eq_nil : ∀ q, w.parties.slots.length ≤ q → x.events q = []
  epochs_eq_zero : ∀ q, w.parties.slots.length ≤ q → x.epochs q = 0
  queue_eq_nil : ∀ id, w.network.endpoints.slots.length ≤ id → x.queue id = []
  number_one : ∀ d, w.surfaces.slots.length ≤ d → x.number d 1 = 1
  number_injective : ∀ d, Function.Injective (x.number d)
  number_succ : ∀ d id, (w.document d).nextId ≤ id → x.number d (id + 1) = x.number d id + 1
  taker : ∀ q, takes q → x.queue (w.party q).endpoint = []
  waiting : ∀ c, w.Waits c → ∀ q, c.taker? = some q → takes q

/-- The second world is the first one with the offset. -/
structure Follows (takes : Nat → Prop) (x : Offset) (w w' : World) : Prop where
  eq : w' = x.on w
  fits : x.Fits takes w

/-- Two results are related, and the second world is the first one with the offset. -/
inductive Answers (takes : Nat → Prop) (x : Offset) {α : Type} (R : α → α → Prop) :
    α × World → α × World → Prop where
  | intro {a a' : α} {w w' : World} (hresult : R a a') (h : Follows takes x w w') :
      Answers takes x R (a, w) (a', w')

variable {x : Offset} {takes : Nat → Prop} {w w' : World} {p q d id epoch : Nat}

theorem onEndpoint_eq_self (h : x.queue id = []) (e : Endpoint) : x.onEndpoint id e = e := by
  simp [onEndpoint, h]

theorem Fits.onParty_default (hfits : x.Fits takes w) (hq : w.parties.slots.length ≤ q) :
    x.onParty q default = default := by
  simp only [onParty, hfits.events_eq_nil q hq, hfits.epochs_eq_zero q hq]
  rfl

theorem Fits.onSurface_default (hfits : x.Fits takes w) (hd : w.surfaces.slots.length ≤ d) :
    x.onSurface d default = default := by
  have hone : x.number d (default : Surface).document.nextId = 1 := hfits.number_one d hd
  simp only [onSurface, onDocument, hone]
  rfl

@[simp]
theorem other_onPhase (phase : Phase) : (x.onPhase q phase).other = phase.other := by
  cases phase <;> rfl

@[simp]
theorem document_onPhase (phase : Phase) : (x.onPhase q phase).document = phase.document := by
  cases phase <;> rfl

@[simp]
theorem isSharing_onPhase (phase : Phase) : (x.onPhase q phase).isSharing = phase.isSharing := by
  cases phase <;> rfl

theorem isEpoch_onPhase (phase : Phase) :
    (x.onPhase q phase).isEpoch (x.epochs q + epoch) = phase.isEpoch epoch := by
  cases phase with
  | idle => rfl
  | offered o => rfl
  | live l => simp [onPhase, onLive, Phase.isEpoch]

theorem admit?_onLive (l : Live) (u : Update) (len : Nat) :
    (x.onLive q l).admit? u len = (l.admit? u len).map fun r => (r.1, x.onLive q r.2) := by
  simp only [Live.admit?, onLive]
  cases l.strategy.check? u len with
  | none => rfl
  | some checked =>
      cases checked with
      | error reason => rfl
      | ok =>
          cases l.strategy.receive? u with
          | none => rfl
          | some r =>
              obtain ⟨adjusted, strategy⟩ := r
              cases hbounds : adjusted.checkBounds len <;> simp [hbounds]

/-- What an update calls for does not depend on the offset. -/
theorem receive?_onPhase (limits : Limits) (sender : PeerId) (u : Update) (len : Nat)
    (phase : Phase) :
    (x.onPhase q phase).receive? limits sender u len =
      (phase.receive? limits sender u len).map fun r => (x.onIncoming q r.1, x.onPhase q r.2) := by
  cases phase with
  | idle => rfl
  | offered o =>
      simp only [onPhase, Phase.receive?]
      split
      · rfl
      · cases o.absorb? limits u.edit with
        | none => rfl
        | some r =>
            obtain ⟨result, o'⟩ := r
            cases result <;> rfl
  | live l =>
      have hother : (x.onLive q l).participants = l.participants := rfl
      simp only [onPhase, Phase.receive?, hother, admit?_onLive]
      split
      · rfl
      · cases l.admit? u len with
        | none => rfl
        | some r =>
            obtain ⟨result, l'⟩ := r
            cases result <;> rfl

theorem listen_onDocument {document : Document Subscriber} (subscriber : Subscriber)
    (hsucc : x.number d (document.nextId + 1) = x.number d document.nextId + 1) :
    (x.onDocument d document).listen (x.onSubscriber subscriber) =
      (x.number d (document.listen subscriber).1,
        x.onDocument d (document.listen subscriber).2) := by
  simp [Document.listen, onDocument, hsucc]

theorem unlisten_onDocument {document : Document Subscriber}
    (hinjective : Function.Injective (x.number d)) :
    ((x.onDocument d document).unlisten (x.number d id)).2 =
      x.onDocument d (document.unlisten id).2 := by
  have hkept : ((fun l : Nat × Subscriber => l.1 != x.number d id) ∘
      fun l : Nat × Subscriber => (x.number d l.1, x.onSubscriber l.2)) = fun l => l.1 != id := by
    funext l
    simp [bne_eq, hinjective.eq_iff]
  simp only [Document.unlisten, onDocument, List.filter_map, hkept]

namespace Follows

variable (h : x.Follows takes w w')
include h

/-! ### What is found in the second world -/

theorem party_eq (q : Nat) : w'.party q = x.onParty q (w.party q) := by
  obtain ⟨rfl, hfits⟩ := h
  exact Table.get_adjust (fun _ hj => hfits.onParty_default hj) q

theorem surface_eq (d : Nat) : w'.surfaces.get d = x.onSurface d (w.surfaces.get d) := by
  obtain ⟨rfl, hfits⟩ := h
  exact Table.get_adjust (fun _ hj => hfits.onSurface_default hj) d

theorem endpoint_eq (id : Nat) :
    w'.network.endpoint id = x.onEndpoint id (w.network.endpoint id) := by
  obtain ⟨rfl, hfits⟩ := h
  exact Table.get_adjust (fun j hj => onEndpoint_eq_self (hfits.queue_eq_nil j hj) _) id

theorem phase_eq (q : Nat) : w'.phase q = x.onPhase q (w.phase q) :=
  congrArg Party.phase (h.party_eq q)

theorem config_eq (q : Nat) : (w'.party q).config = (w.party q).config := by
  rw [h.party_eq]
  rfl

theorem limits_eq (q : Nat) : w'.limits q = w.limits q := congrArg Config.limits (h.config_eq q)

theorem writing_eq (q : Nat) : (w'.party q).writing = (w.party q).writing := by
  rw [h.party_eq]
  rfl

theorem identity_eq (q : Nat) : w'.identity q = w.identity q := by
  rw [World.identity, h.party_eq, h.endpoint_eq]
  rfl

theorem document_eq (d : Nat) : w'.document d = x.onDocument d (w.document d) :=
  congrArg Surface.document (h.surface_eq d)

theorem text_eq (d : Nat) : (w'.document d).text = (w.document d).text := by
  rw [h.document_eq]
  rfl

theorem length_eq (d : Nat) : (w'.document d).length = (w.document d).length :=
  congrArg List.length (h.text_eq d)

theorem hook_eq (d : Nat) : (w'.surfaces.get d).hook = (w.surfaces.get d).hook := by
  rw [h.surface_eq]
  rfl

theorem released_eq (d : Nat) : (w'.surfaces.get d).released = (w.surfaces.get d).released := by
  rw [h.surface_eq]
  rfl

theorem scripts_eq : w'.scripts = w.scripts := by rw [h.eq]; rfl

theorem underway_eq : w'.underway = w.underway := by rw [h.eq]; rfl

theorem log_eq : w'.log = w.log := by rw [h.eq]; rfl

theorem attached?_eq (peer : PeerId) : w'.network.attached? peer = w.network.attached? peer := by
  rw [h.eq]
  exact Network.attached?_adjust (g := x.onEndpoint) (fun _ _ => rfl) (fun _ _ => rfl) peer

theorem isConnected_eq (peer : PeerId) :
    w'.network.isConnected peer = w.network.isConnected peer := by
  rw [Network.isConnected, h.attached?_eq, Network.isConnected]

theorem route_eq (p : Nat) (peer : PeerId) : w'.route p peer = w.route p peer := by
  have hheld : ∀ id, (w'.network.endpoint id).held = (w.network.endpoint id).held := by
    intro id
    rw [h.endpoint_eq]
    rfl
  simp only [World.route, h.identity_eq, h.isConnected_eq, h.attached?_eq, hheld]

theorem map_surfaces {β : Type} (π : Surface → β)
    (hπ : ∀ s document, π { s with document := document } = π s) :
    w'.surfaces.slots.map π = w.surfaces.slots.map π := by
  rw [h.eq]
  exact Table.map_slots_adjust π fun _ s => hπ s _

theorem awaitedCalls_eq : w'.awaitedCalls = w.awaitedCalls := by
  have hhooks : ∀ v : World, v.awaitedCalls =
      v.underway ++ (v.surfaces.slots.map Surface.hook).flatMap fun hook =>
        hook.elim [] Hook.calls := by
    intro v
    rw [World.awaitedCalls, List.flatMap_map]
    refine congrArg (v.underway ++ List.flatMap · v.surfaces.slots) (funext fun s => ?_)
    cases s.hook <;> rfl
  rw [hhooks, hhooks, h.underway_eq, h.map_surfaces Surface.hook fun _ _ => rfl]

theorem pendingReactions_eq : w'.pendingReactions = w.pendingReactions := by
  have hmap : ∀ slots : List Surface, (slots.countP fun s => s.hook.isSome) =
      (slots.map Surface.hook).countP Option.isSome := by
    intro slots
    rw [List.countP_map]
    rfl
  rw [World.pendingReactions, World.pendingReactions, h.scripts_eq, hmap, hmap,
    h.map_surfaces Surface.hook fun _ _ => rfl]

theorem holdsParty_eq (p : Nat) : w'.holdsParty p = w.holdsParty p := by
  rw [World.holdsParty, h.party_eq, h.awaitedCalls_eq]
  rfl

theorem holdsDocument_eq (d : Nat) : w'.holdsDocument d = w.holdsDocument d := by
  have hmap : ∀ slots : List Party, (slots.any fun party => party.phase.document == some d) =
      (slots.map fun party => party.phase.document).any fun document => document == some d := by
    intro slots
    rw [List.any_map]
    rfl
  have hdocuments : (w'.parties.slots.map fun party => party.phase.document) =
      w.parties.slots.map fun party => party.phase.document := by
    rw [h.eq]
    exact Table.map_slots_adjust _ fun q party => document_onPhase party.phase
  rw [World.holdsDocument, h.released_eq, h.awaitedCalls_eq, hmap, hdocuments, ← hmap]
  rfl

/-! ### What is done to both worlds -/

/-- A change outside the parties, the documents and the network. -/
theorem of_eq {w₁ : World} (hparties : w₁.parties = w.parties)
    (hsurfaces : w₁.surfaces = w.surfaces) (hnetwork : w₁.network = w.network)
    (hwaits : ∀ c, w₁.Waits c → w.Waits c) : x.Follows takes w₁ (x.on w₁) where
  eq := rfl
  fits := {
    events_eq_nil := hparties ▸ h.fits.events_eq_nil
    epochs_eq_zero := hparties ▸ h.fits.epochs_eq_zero
    queue_eq_nil := hnetwork ▸ h.fits.queue_eq_nil
    number_one := hsurfaces ▸ h.fits.number_one
    number_injective := h.fits.number_injective
    number_succ := fun d id hid => h.fits.number_succ d id (by rwa [World.document, ← hsurfaces])
    taker := fun q hq => by
      rw [World.party, hparties]
      exact h.fits.taker q hq
    waiting := fun c hc => h.fits.waiting c (hwaits c hc) }

theorem note (outcome : Outcome) :
    x.Follows takes { w with log := w.log ++ [outcome] }
      { w' with log := w'.log ++ [outcome] } := by
  obtain ⟨rfl, hfits⟩ := h
  exact of_eq ⟨rfl, hfits⟩ rfl rfl rfl fun _ hc => hc

theorem modifyParty {f f' : Party → Party}
    (hf : ∀ party, f' (x.onParty p party) = x.onParty p (f party))
    (hendpoint : ∀ party, (f party).endpoint = party.endpoint) :
    x.Follows takes (w.modifyParty p f) (w'.modifyParty p f') := by
  obtain ⟨rfl, hfits⟩ := h
  have hlength : w.parties.slots.length ≤ (w.modifyParty p f).parties.slots.length := by
    rw [World.modifyParty, Table.length_modify]
    exact Nat.le_max_left ..
  refine ⟨?_, { hfits with
    events_eq_nil := fun q hq => hfits.events_eq_nil q (Nat.le_trans hlength hq)
    epochs_eq_zero := fun q hq => hfits.epochs_eq_zero q (Nat.le_trans hlength hq)
    taker := fun q hq => ?_ }⟩
  · have hparties := Table.modify_adjust hf fun q hq => hfits.onParty_default hq
    exact congrArg (fun parties => { x.on w with parties }) hparties
  · by_cases hqp : q = p
    · subst hqp
      rw [World.party_modifyParty_self, hendpoint]
      exact hfits.taker q hq
    · rw [World.party_modifyParty_of_ne w f hqp]
      exact hfits.taker q hq

theorem modifyEndpoint {f : Endpoint → Endpoint}
    (hf : ∀ e, f (x.onEndpoint id e) = x.onEndpoint id (f e)) :
    x.Follows takes { w with network := w.network.modify id f }
      { w' with network := w'.network.modify id f } := by
  obtain ⟨rfl, hfits⟩ := h
  refine ⟨?_, { hfits with queue_eq_nil := fun j hj => hfits.queue_eq_nil j ?_ }⟩
  · have hendpoints := Table.modify_adjust hf fun j hj =>
      onEndpoint_eq_self (hfits.queue_eq_nil j hj) _
    exact congrArg (fun endpoints => { x.on w with network := ⟨endpoints⟩ }) hendpoints
  · rw [Network.modify, Table.length_modify] at hj
    omega

theorem modifySurface {f f' : Surface → Surface}
    (hf : ∀ s, f' (x.onSurface d s) = x.onSurface d (f s))
    (hnext : (w.document d).nextId ≤ (f (w.surfaces.get d)).document.nextId)
    (hhook : ∀ s, (f s).hook = s.hook ∨ (f s).hook = none) :
    x.Follows takes { w with surfaces := w.surfaces.modify d f }
      { w' with surfaces := w'.surfaces.modify d f' } := by
  obtain ⟨rfl, hfits⟩ := h
  have hlength : w.surfaces.slots.length ≤ (w.surfaces.modify d f).slots.length := by
    rw [Table.length_modify]
    exact Nat.le_max_left ..
  have hnextId : ∀ e,
      (w.document e).nextId ≤ ((w.surfaces.modify d f).get e).document.nextId := by
    intro e
    by_cases he : e = d
    · subst he
      rwa [Table.get_modify_self]
    · rw [Table.get_modify_of_ne _ _ he]
      exact Nat.le_refl _
  refine ⟨?_, { hfits with
    number_one := fun e he => hfits.number_one e (Nat.le_trans hlength he)
    number_succ := fun e j hj => hfits.number_succ e j (Nat.le_trans (hnextId e) hj)
    waiting := fun c hc => hfits.waiting c (hc.of_le (fun e => ?_) fun _ _ hnow => hnow) }⟩
  · have hsurfaces := Table.modify_adjust hf fun e he => hfits.onSurface_default he
    exact congrArg (fun surfaces => { x.on w with surfaces }) hsurfaces
  · by_cases he : e = d
    · subst he
      rw [Table.get_modify_self]
      exact hhook _
    · rw [Table.get_modify_of_ne _ _ he]
      exact .inl rfl

theorem setPhase (phase : Phase) :
    x.Follows takes (w.setPhase p phase) (w'.setPhase p (x.onPhase p phase)) :=
  h.modifyParty (fun _ => rfl) fun _ => rfl

theorem emit (event : Event) : x.Follows takes (w.emit p event) (w'.emit p event) :=
  h.modifyParty (fun _ => by simp [onParty, List.append_assoc]) fun _ => rfl

theorem setWriting (writing : Bool) :
    x.Follows takes (w.setWriting p writing) (w'.setWriting p writing) :=
  h.modifyParty (fun _ => rfl) fun _ => rfl

theorem nextEpoch : Answers takes x (fun epoch epoch' => epoch' = x.epochs p + epoch)
    (w.nextEpoch p) (w'.nextEpoch p) := by
  have hepochs : (w'.party p).epochs = x.epochs p + (w.party p).epochs := by
    rw [h.party_eq]
    rfl
  rw [World.nextEpoch, World.nextEpoch, hepochs]
  exact .intro rfl (h.modifyParty (fun _ => rfl) fun _ => rfl)

theorem setDocument {document : Document Subscriber}
    (hnext : (w.document d).nextId ≤ document.nextId) :
    x.Follows takes (w.setDocument d document) (w'.setDocument d (x.onDocument d document)) :=
  h.modifySurface (fun _ => rfl) hnext fun _ => .inl rfl

/-- A hook is taken off a document. -/
theorem unhook : x.Follows takes (w.setHook d none) (w'.setHook d none) :=
  h.modifySurface (fun _ => rfl) (Nat.le_refl _) fun _ => .inr rfl

theorem unlisten (id : Nat) :
    x.Follows takes (w.unlisten d id) (w'.unlisten d (x.number d id)) := by
  rw [World.unlisten, World.unlisten, h.document_eq,
    unlisten_onDocument (h.fits.number_injective d)]
  exact h.setDocument (Nat.le_refl _)

theorem detach (phase : Phase) :
    x.Follows takes (w.detach phase) (w'.detach (x.onPhase q phase)) := by
  cases phase with
  | live l =>
      simp only [World.detach, onPhase, onLive]
      cases l.capture with
      | none => exact h
      | some id => exact h.unlisten id
  | idle | offered => exact h

theorem vacate : x.Follows takes (w.vacate p) (w'.vacate p) := by
  rw [World.vacate, World.vacate, h.phase_eq]
  exact (h.setPhase .idle).detach _

theorem attach (epoch : Nat) : Answers takes x (fun id id' => id' = x.number d id)
    (w.attach p epoch d) (w'.attach p (x.epochs p + epoch) d) := by
  have hlisten := listen_onDocument (.capture p epoch)
    (h.fits.number_succ d (w.document d).nextId (Nat.le_refl _))
  rw [World.attach, World.attach, h.document_eq]
  simp only [onSubscriber] at hlisten
  rw [hlisten]
  exact .intro rfl (h.setDocument (Nat.le_succ _))

theorem resume (epoch : Nat) :
    x.Follows takes (w.resume p epoch) (w'.resume p (x.epochs p + epoch)) := by
  rw [World.resume, World.resume, h.phase_eq]
  cases w.phase p with
  | idle => exact h
  | offered o => exact h
  | live l =>
      simp only [onPhase, onLive, Nat.add_left_cancel_iff, Option.map_eq_none_iff]
      split
      · have hattach := h.attach (p := p) (d := l.document) epoch
        generalize w.attach p epoch l.document = r at hattach ⊢
        generalize w'.attach p (x.epochs p + epoch) l.document = r' at hattach ⊢
        obtain ⟨rfl, h₁⟩ := hattach
        exact h₁.setPhase (.live { l with capture := some _ })
      · exact h

theorem send (peer : PeerId) (m : Message) :
    Answers takes x Eq (w.send p peer m) (w'.send p peer m) := by
  rw [World.send_eq, World.send_eq, h.limits_eq, h.route_eq]
  cases m.encode (w.limits p) with
  | error reason => exact .intro rfl h
  | ok payload =>
      cases w.route p peer with
      | error reason => exact .intro rfl h
      | ok target =>
          refine .intro rfl ?_
          rw [World.deliver, World.deliver, h.identity_eq]
          exact h.modifyEndpoint fun e => by simp [onEndpoint, Network.Endpoint.deliver]

end Follows

end Offset

end Session

end PairEdit
