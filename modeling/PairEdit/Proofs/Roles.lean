import PairEdit.Proofs.CallSteps
import PairEdit.Proofs.Replica

/-!
# Who is who in a session

A party keeps three identities of a session or an offer: its own, that of the peer that made the
offer, and that of the peer that got it.  Which side it is on is read off from them each time,
while the state, the events and the strategy are told a side once, where the session or the offer
begins.  The main theorem says that all of them agree, in every world in which no host was told
of an offer that its own party had made.  A party that takes in such an offer, which it could not
have made, is on both sides at once, as `own_offer_mixes_roles` shows.
-/

namespace PairEdit

/-! ## The priority of a strategy -/

namespace Strategy

variable {s s' : Strategy} {u : Update} {e : Edit}

/-- The priority that a strategy was made with, if it has one. -/
def priority? : Strategy → Option Priority
  | backlog b => some b.priority
  | plain => none

theorem eq_of_mem_priority?_start {kind : Kind} {role : Role} {x : Priority}
    (h : x ∈ (start kind role).priority?) : x = role.priority := by
  cases kind with
  | backlog => exact (Option.some.inj h).symm
  | plain => cases h

theorem priority?_of_register? (h : s.register? e = some (u, s')) :
    s'.priority? = s.priority? := by
  cases s with
  | plain =>
      cases h
      rfl
  | backlog b =>
      obtain ⟨⟨u', b'⟩, hregister, heq⟩ := Option.map_eq_some_iff.1 h
      cases heq
      obtain ⟨-, -, rfl⟩ := Backlog.register?_eq_some_iff.1 hregister
      rfl

theorem priority?_of_receive? (h : s.receive? u = some (e, s')) : s'.priority? = s.priority? := by
  cases s with
  | plain =>
      cases h
      rfl
  | backlog b =>
      obtain ⟨⟨e', b'⟩, hreceive, heq⟩ := Option.map_eq_some_iff.1 h
      cases heq
      obtain ⟨-, edits, -, rfl⟩ := Backlog.receive?_eq_some_iff.1 hreceive
      exact congrArg some (Backlog.priority_retire b u.seen)

theorem priority?_of_skip? {count : Nat} (h : s.skip? count = some s') :
    s'.priority? = s.priority? := by
  cases s with
  | plain =>
      cases h
      rfl
  | backlog b =>
      obtain ⟨b', hskip, rfl⟩ := Option.map_eq_some_iff.1 h
      obtain ⟨-, rfl⟩ := Backlog.skip?_eq_some_iff.1 hskip
      rfl

end Strategy

namespace Session

/-- Whether an update is taken in or not, the priority stays. -/
theorem Live.priority?_of_admit? {l l' : Live} {u : Update} {len : Nat}
    {result : Except EditError Edit} (h : l.admit? u len = some (result, l')) :
    l'.strategy.priority? = l.strategy.priority? := by
  obtain ⟨checked, -, h⟩ := Option.bind_eq_some_iff.1 h
  cases checked with
  | error reason =>
      cases h
      rfl
  | ok _ =>
      obtain ⟨⟨adjusted, s⟩, hreceive, h⟩ := Option.bind_eq_some_iff.1 h
      dsimp only at h
      split at h <;> cases h <;> exact Strategy.priority?_of_receive? hreceive

/-! ## Sides -/

/-- Two peers, of which this is one. -/
structure Participants.Fit (participants : Participants) (me : PeerId) : Prop where
  our : participants.our = me
  ne : participants.initiator ≠ participants.receiver
  mem : participants.our = participants.initiator ∨ participants.our = participants.receiver

namespace Participants

variable {participants : Participants} {me : PeerId}

theorem role_eq_receiver_iff :
    participants.role = .receiver ↔ participants.our ≠ participants.initiator := by
  simp [role]

/-- The peer on the other side is another one. -/
theorem Fit.other_ne (h : participants.Fit me) : participants.other ≠ participants.our := by
  unfold other
  cases hrole : participants.role with
  | initiator =>
      have hour : participants.our = participants.initiator := by
        by_contra hne
        cases (role_eq_receiver_iff.2 hne).symm.trans hrole
      exact fun hother => h.ne (hour.symm.trans hother.symm)
  | receiver => exact (role_eq_receiver_iff.1 hrole).symm

/-- Who offers a document to another peer is the initiator. -/
theorem fit_initiator {other : PeerId} (h : me ≠ other) : Fit ⟨me, me, other⟩ me :=
  ⟨rfl, h, .inl rfl⟩

/-- Who is offered a document by another peer is the receiver. -/
theorem fit_receiver {initiator : PeerId} (h : initiator ≠ me) : Fit ⟨me, initiator, me⟩ me :=
  ⟨rfl, h, .inr rfl⟩

end Participants

/-- An offer that is from another peer. -/
structure Offered.WellCast (o : Offered) (me : PeerId) : Prop where
  fit : o.participants.Fit me
  role_eq : o.participants.role = .receiver

/-- A session whose sides are told apart: only who offered the document may not know yet that it
was accepted, and the strategy was made for the side. -/
structure Live.WellCast (l : Live) (me : PeerId) : Prop where
  fit : l.participants.Fit me
  role_eq : l.confirmed = false → l.participants.role = .initiator
  priority_eq : ∀ x ∈ l.strategy.priority?, x = l.participants.role.priority

/-- Whatever session or offer there is, its sides are told apart. -/
def Phase.WellCast (me : PeerId) : Phase → Prop
  | idle => True
  | offered o => o.WellCast me
  | live l => l.WellCast me

/-- The priority that the strategy of the session was made with, if it has one. -/
def Phase.priority? : Phase → Option Priority
  | live l => l.strategy.priority?
  | _ => none

open World

/-- Whatever session or offer a party has, its sides are told apart. -/
def World.WellCast (w : World) (p : Nat) : Prop := (w.phase p).WellCast (w.identity p)

/-- The peer whose offer an event tells of. -/
def Event.sender? : Event → Option PeerId
  | startRequested offer => some offer.sender
  | _ => none

/-- The host of a party has been told of an offer that the party itself had made. -/
def World.OwnOffer (w : World) (p : Nat) : Prop :=
  ∃ event ∈ (w.party p).events, event.sender? = some (w.identity p)

instance (w : World) (p : Nat) : Decidable (w.OwnOffer p) :=
  inferInstanceAs (Decidable (∃ event ∈ (w.party p).events, event.sender? = some (w.identity p)))

variable {w w' w'' : World} {p q d : Nat}

/-! ## Ending -/

/-- Every party is in the phase it was in, or idle. -/
structure Subsides (w w' : World) : Prop where
  phase : ∀ q, w'.phase q = w.phase q ∨ w'.phase q = .idle

namespace Subsides

theorem of_phase_eq (h : ∀ q, w'.phase q = w.phase q) : Subsides w w' := ⟨fun q => .inl (h q)⟩

theorem refl (w : World) : Subsides w w := of_phase_eq fun _ => rfl

theorem trans (h : Subsides w w') (h' : Subsides w' w'') : Subsides w w'' := by
  refine ⟨fun q => ?_⟩
  obtain heq | hidle := h'.phase q
  · rw [heq]
    exact h.phase q
  · exact .inr hidle

/-- The party that acts becomes idle. -/
theorem of_keepsOthers (h : KeepsOthers (· = p) w w') (hp : w'.phase p = .idle) :
    Subsides w w' := by
  refine ⟨fun q => ?_⟩
  by_cases hq : q = p
  · subst hq
    exact .inr hp
  · exact h.phase_eq hq

theorem collect (w : World) : Subsides w w.collect :=
  ⟨fun _ => (KeepsOthers.collect (fun _ => False) w).phase_eq not_false⟩

theorem leave (w : World) (p : Nat) : Subsides w (w.leave p) :=
  of_keepsOthers (KeepsOthers.leave w p) (phase_leave_self w p)

theorem emit (w : World) (p : Nat) (event : Event) : Subsides w (w.emit p event) :=
  of_phase_eq (phase_emit w p event)

theorem send (w : World) (p : Nat) (peer : PeerId) (m : Message) :
    Subsides w (w.send p peer m).2 :=
  of_phase_eq (phase_send w p peer m)

theorem of_endRun (h : EndRun p w w') : Subsides w w' := by
  cases h with
  | none => exact refl w
  | left => exact (leave w p).trans (emit _ p _)
  | told peer => exact (leave w p).trans ((emit _ p _).trans (send _ p peer .stop))

end Subsides

/-! ## Whatever is done keeps the sides apart -/

theorem World.identity_setPhase (w : World) (p : Nat) (phase : Phase) (q : Nat) :
    (w.setPhase p phase).identity q = w.identity q :=
  congrArg (fun endpoint => (w.network.endpoint endpoint).peer)
    (apply_party_modifyParty (π := Party.endpoint)
      (f := fun party => { party with phase := phase }) (fun _ => rfl) p q)

namespace World.WellCast

theorem subsides (h : w.WellCast p) (hidentity : w'.identity p = w.identity p)
    (hphase : Subsides w w') : w'.WellCast p := by
  rw [World.WellCast, hidentity]
  obtain heq | hidle := hphase.phase p
  · rw [heq]
    exact h
  · rw [hidle]
    trivial

/-- One party acts; only if it is this one it matters what it does. -/
theorem acts (h : w.WellCast p) (hidentity : w'.identity p = w.identity p)
    (hkeeps : KeepsOthers (· = q) w w') (hact : p = q → (w'.phase p).WellCast (w.identity p)) :
    w'.WellCast p := by
  rw [World.WellCast, hidentity]
  by_cases hq : p = q
  · exact hact hq
  · obtain heq | hidle := hkeeps.phase_eq hq
    · rw [heq]
      exact h
    · rw [hidle]
      trivial

theorem setPhase {phase : Phase} (h : w.WellCast p)
    (hact : p = q → phase.WellCast (w.identity p)) : (w.setPhase q phase).WellCast p := by
  refine h.acts (identity_setPhase w q phase p) (KeepsOthers.setPhase w q phase) ?_
  rintro rfl
  rw [phase_setPhase_self]
  exact hact rfl

/-- Who offers a document to another peer is the initiator. -/
theorem start (h : w.WellCast p) (q : Nat) (our : PeerId) (name : Option Text) (other : PeerId)
    (fileName : Text) (d : Nat) : (w.start q our name other fileName d).2.WellCast p := by
  have hidentity := (CallStep.start w q our name other fileName d).identity_eq p
  obtain ⟨reason, hstart⟩ | ⟨hne, hour, -, s, hs, hstart⟩ :=
    w.start_cases q our name other fileName d
  · rwa [hstart]
  · have hinitiate := KeepsOthers.initiate w q d ⟨our, our, other⟩ s
    obtain ⟨reason, hstart⟩ | ⟨m, hstart⟩ := hstart
    · rw [hstart] at hidentity ⊢
      exact h.subsides hidentity
        (.of_keepsOthers (hinitiate.trans (KeepsOthers.leave _ q)) (phase_leave_self ..))
    · rw [hstart] at hidentity ⊢
      refine h.acts hidentity (hinitiate.trans
        ((KeepsOthers.send ..).trans (KeepsOthers.emit _ q _))) ?_
      rintro rfl
      obtain ⟨id, hlive⟩ := w.exists_phase_initiate p d ⟨our, our, other⟩ s
      rw [phase_emit, phase_send, hlive, ← hour]
      refine ⟨Participants.fit_initiator hne, fun _ => if_pos rfl, fun x hx => ?_⟩
      rw [Participants.role, if_pos rfl]
      exact Strategy.eq_of_mem_priority?_start (hs ▸ hx)

/-- Who is told of an offer by another peer is the receiver. -/
theorem handleStart (h : w.WellCast p) {sender : PeerId} {offer : Start}
    (hown : ¬ (w.handleStart q sender offer).2.OwnOffer p) :
    (w.handleStart q sender offer).2.WellCast p := by
  have hidentity := (CallStep.handleStart w q sender offer).identity_eq p
  rw [OwnOffer, hidentity] at hown
  obtain ⟨-, reason, heq⟩ | ⟨-, hreceiver, ⟨-, heq⟩ | ⟨-, heq⟩⟩ :=
    w.handleStart_cases q sender offer
  · rwa [heq]
  · rw [heq] at hown hidentity ⊢
    refine h.acts hidentity ((KeepsOthers.setPhase w q _).trans (KeepsOthers.emit _ q _)) ?_
    rintro rfl
    rw [phase_emit, phase_setPhase_self, ← hreceiver]
    have hne : offer.senderId ≠ offer.receiverId := by
      intro heq
      refine hown ⟨_, (events_emit_self ..).symm ▸ List.mem_append_right _ (.head _), ?_⟩
      exact congrArg some (heq.trans hreceiver)
    exact ⟨Participants.fit_receiver hne, Participants.role_eq_receiver_iff.2 hne.symm⟩
  · rw [heq] at hidentity ⊢
    exact h.subsides hidentity ((Subsides.emit w q _).trans (.send _ q _ _))

theorem of_offered (h : w.WellCast p) {o : Offered} (hoffered : w.phase p = .offered o) :
    o.WellCast (w.identity p) := by
  rwa [World.WellCast, hoffered] at h

theorem of_live (h : w.WellCast p) {l : Live} (hlive : w.phase p = .live l) :
    l.WellCast (w.identity p) := by
  rwa [World.WellCast, hlive] at h

/-- Who accepts an offer goes on as its receiver. -/
theorem enter (h : w.WellCast p) {o : Offered} {epoch : Nat} (hoffered : w.phase q = .offered o)
    (henter : w.enter q d o = .ok (epoch, w')) : w'.WellCast p := by
  have hidentity := (CallStep.enter o hoffered henter).identity_eq p
  obtain ⟨s, hskip, henter⟩ := bind_eq_ok_iff.1 henter
  cases henter
  refine h.acts hidentity (KeepsOthers.join w q d o s) ?_
  rintro rfl
  have hcast := h.of_offered hoffered
  have hlive : Live.WellCast ⟨o.participants, (w.nextEpoch p).1, d, none, s, true⟩
      (w.identity p) := by
    refine ⟨hcast.fit, nofun, fun x hx => ?_⟩
    rw [hcast.role_eq]
    rw [Strategy.priority?_of_skip? (orOverflow_eq_ok_iff.1 hskip)] at hx
    exact Strategy.eq_of_mem_priority?_start hx
  exact (phase_join_self w p d o s).symm ▸ hlive

/-- What an update or a local edit makes of the strategy leaves its priority as it is. -/
theorem of_strategy (h : w.WellCast p) {l : Live} {s : Strategy} (hlive : w.phase p = .live l)
    (hpriority : s.priority? = l.strategy.priority?) (confirmed : Bool) (capture : Option Nat)
    (hconfirmed : confirmed = false → l.confirmed = false) :
    Phase.WellCast (w.identity p)
      (.live { l with strategy := s, confirmed := confirmed, capture := capture }) := by
  have hcast := h.of_live hlive
  exact ⟨hcast.fit, fun hfalse => hcast.role_eq (hconfirmed hfalse),
    fun x hx => hcast.priority_eq x (hpriority ▸ hx)⟩

theorem retune (h : w.WellCast p) {l : Live} {s : Strategy} (hlive : w.phase q = .live l)
    (hpriority : s.priority? = l.strategy.priority?) :
    (w.setPhase q (.live { l with strategy := s })).WellCast p := by
  refine h.setPhase ?_
  rintro rfl
  exact h.of_strategy hlive hpriority l.confirmed l.capture id

theorem capture (h : w.WellCast p) {epoch : Nat} {e : Edit}
    (hcapture : w.capture q epoch e = .ok w') : w'.WellCast p := by
  have hidentity := (CallStep.capture hcapture).identity_eq p
  have hsent : ∀ (l : Live) (u : Update) (s : Strategy), w.phase q = .live l →
      l.strategy.register? e = some (u, s) → ∀ w', w'.identity p = w.identity p →
      Subsides ((w.setPhase q (.live { l with strategy := s })).send q l.participants.other
        (.update u)).2 w' → w'.WellCast p := by
    intro l u s hlive hregister w' hidentity hsubsides
    have hset := h.retune hlive (Strategy.priority?_of_register? hregister)
    exact hset.subsides (hidentity.trans (identity_setPhase ..).symm)
      ((Subsides.send _ q l.participants.other (.update u)).trans hsubsides)
  cases CaptureRun.of_capture hcapture with
  | skipped => exact h
  | sent l u s hlive _ _ hregister hsend =>
      exact hsent l u s hlive hregister _ hidentity (hsend ▸ .refl _)
  | unsent l u s reason hlive _ _ hregister hsend =>
      exact hsent l u s hlive hregister _ hidentity (hsend ▸ .emit _ q _)

theorem suspend (h : w.WellCast p) {l : Live} {s : Strategy} (hlive : w.phase q = .live l)
    (hpriority : s.priority? = l.strategy.priority?) : (w.suspend q l s).WellCast p := by
  refine h.acts ((WorldSteps.single (.suspend w q l s hlive)).identity_eq p)
    (KeepsOthers.suspend w q l s) ?_
  rintro rfl
  rw [phase_suspend_self]
  exact h.of_strategy hlive hpriority true none nofun

theorem resume (h : w.WellCast p) (q epoch : Nat) : (w.resume q epoch).WellCast p := by
  refine h.acts ((CallStep.resume w q epoch).identity_eq p) (KeepsOthers.resume w q epoch) ?_
  rintro rfl
  obtain ⟨heq, -⟩ | ⟨l, hlive, -, -, heq⟩ := w.resume_cases p epoch
  · rwa [heq]
  · have hcast := h.of_strategy hlive rfl l.confirmed (some (w.attach p epoch l.document).1) id
    rw [heq]
    exact (phase_setPhase_self (w.attach p epoch l.document).2 p _).symm ▸ hcast

/-- Whatever is done, the sides stay apart, unless the host is told of an offer of its own party. -/
theorem callStep (h : w.WellCast p) (hcallStep : CallStep w w') (hown : ¬ w'.OwnOffer p) :
    w'.WellCast p := by
  have hidentity := hcallStep.identity_eq p
  cases hcallStep with
  | note | text | unhook | disconnect | receive =>
      exact h.subsides hidentity (.of_phase_eq fun _ => rfl)
  | collect => exact h.subsides hidentity (.collect w)
  | lock q writing => exact h.subsides hidentity (.of_phase_eq (phase_setWriting w q writing))
  | emit q event => exact h.subsides hidentity (.emit w q event)
  | start q our name other fileName d => exact h.start q our name other fileName d
  | stop q => exact h.subsides hidentity (.of_endRun (.stop w q))
  | decline q => exact h.subsides hidentity (.of_endRun (.decline w q))
  | endSession => exact h.subsides hidentity (.of_endRun (.endSession ..))
  | endOffer => exact h.subsides hidentity (.of_endRun (.endOffer ..))
  | enter o hoffered henter => exact h.enter hoffered henter
  | resume q epoch => exact h.resume q epoch
  | handleStart q sender offer => exact h.handleStart hown
  | handleStop => exact h.subsides hidentity (.of_endRun (.handleStop ..))
  | handleDisconnect => exact h.subsides hidentity (.of_endRun (.handleDisconnect ..))
  | stay q =>
      refine h.setPhase ?_
      rintro rfl
      exact h
  | absorb o text n hoffered =>
      refine h.setPhase ?_
      rintro rfl
      have hcast := h.of_offered hoffered
      exact ⟨hcast.fit, hcast.role_eq⟩
  | refuse l s hlive hadmitted => exact h.retune hlive (Live.priority?_of_admit? hadmitted)
  | suspend l s hlive hadmitted => exact h.suspend hlive (Live.priority?_of_admit? hadmitted)
  | capture hcapture => exact h.capture hcapture

end World.WellCast

/-! ## Worlds without offers of one's own -/

/-- What can come next: somebody does something, or hosts and the network arrange something.  A
party keeps its identity. -/
inductive World.Advance : World → World → Prop where
  | callStep {w w' : World} (h : CallStep w w') : Advance w w'
  | arranged {w w' : World} (h : Arranged (fun _ => True) w w')
      (hidentity : ∀ p < w.parties.slots.length, w'.identity p = w.identity p) : Advance w w'

/-- What can come later, also in the middle of a call. -/
abbrev World.Later : World → World → Prop := Relation.ReflTransGen World.Advance

/-- The worlds that come about when the host of a party is told of no offer of the party's own. -/
def World.WithoutOwnOffer (w : World) (p : Nat) : Prop :=
  Relation.ReflTransGen (fun v v' => v.Advance v' ∧ ¬ v'.OwnOffer p) .empty w

theorem World.Later.of_callSteps (h : CallSteps w w') : w.Later w' :=
  Relation.ReflTransGen.mono (fun _ _ hcallStep => Advance.callStep hcallStep) _ _ h

theorem World.Later.assigns (h : w.Later w') {epoch : Nat} {participants : Participants}
    (hw : w.Assigns p epoch participants) : w'.Assigns p epoch participants := by
  induction h with
  | refl => exact hw
  | tail _ hadvance ih =>
      cases hadvance with
      | callStep hcallStep => exact hcallStep.assigns ih
      | arranged harranged => exact harranged.assigns ih

/-- What a host was told of it has been told of ever after. -/
theorem World.OwnOffer.callStep (h : w.OwnOffer p) (hcallStep : CallStep w w') : w'.OwnOffer p := by
  obtain ⟨event, hevent, hsender⟩ := h
  exact ⟨event, (hcallStep.events_prefix p).subset hevent, by rw [hsender, hcallStep.identity_eq]⟩

namespace World.WithoutOwnOffer

theorem later (h : w.WithoutOwnOffer p) : Later .empty w :=
  Relation.ReflTransGen.mono (fun _ _ hnext => hnext.1) _ _ h

theorem callSteps (h : w.WithoutOwnOffer p) (hcallSteps : CallSteps w w') (hown : ¬ w'.OwnOffer p) :
    w'.WithoutOwnOffer p := by
  induction hcallSteps with
  | refl => exact h
  | tail _ hcallStep ih =>
      exact .tail (ih fun hp => hown (hp.callStep hcallStep)) ⟨.callStep hcallStep, hown⟩

theorem idle (text : Text) (config : Config) (p : Nat) :
    (Pair.idle text config).world.WithoutOwnOffer p := by
  have hnone : ∀ {v : World}, (∀ q, (v.party q).events = []) → ¬ v.OwnOffer p := by
    rintro v hv ⟨event, hevent, -⟩
    rw [hv] at hevent
    cases hevent
  refine .tail (.tail (.tail (.tail .refl ⟨.arranged (.addParty Pair.aliceId config) ?_, ?_⟩)
    ⟨.arranged (.addParty Pair.bobId config) ?_, ?_⟩) ⟨.arranged (.addDocument text) ?_, ?_⟩)
    ⟨.arranged (.addDocument []) ?_, ?_⟩
  · exact nofun
  · exact hnone fun q => by rcases q with _ | q <;> rfl
  · rintro (_ | q) hq
    · rfl
    · cases Nat.lt_of_succ_lt_succ hq
  · exact hnone fun q => by rcases q with _ | _ | q <;> rfl
  · exact fun _ _ => rfl
  · exact hnone fun q => by rcases q with _ | _ | q <;> rfl
  · exact fun _ _ => rfl
  · exact hnone fun q => by rcases q with _ | _ | q <;> rfl

theorem wellCast (h : w.WithoutOwnOffer p) : w.WellCast p := by
  induction h with
  | refl => trivial
  | @tail v v' _ hnext ih =>
      obtain ⟨hadvance, hown⟩ := hnext
      cases hadvance with
      | callStep hcallStep => exact ih.callStep hcallStep hown
      | arranged harranged hidentity =>
          have hphase : Subsides v v' := ⟨harranged.phase_eq⟩
          by_cases hp : p < v.parties.slots.length
          · exact ih.subsides (hidentity p hp) hphase
          · -- There was no such party, so there is no session.
            have hidle : v.phase p = .idle := by
              rw [World.phase, World.party, Table.get_of_le (Nat.le_of_not_lt hp)]
              rfl
            have hidle' : v'.phase p = .idle := (hphase.phase p).elim (·.trans hidle) id
            rw [World.WellCast, hidle']
            trivial

end World.WithoutOwnOffer

/-! ## The sides agree -/

theorem World.assigns_initiate (w : World) (p d : Nat) (participants : Participants)
    (s : Strategy) :
    (w.initiate p d participants s).Assigns p (w.nextEpoch p).1 participants := by
  obtain ⟨id, hphase⟩ := w.exists_phase_initiate p d participants s
  refine ⟨Nat.le_of_eq ?_, fun l hlive _ => ?_⟩
  · have hset := epochs_setPhase ((w.nextEpoch p).2.attach p (w.nextEpoch p).1 d).2 p
    exact (epochs_nextEpoch w p).symm.trans (hset _ p).symm
  · rw [hphase] at hlive
    cases hlive
    rfl

theorem World.assigns_join (w : World) (p d : Nat) (o : Offered) (s : Strategy) :
    (w.join p d o s).Assigns p (w.nextEpoch p).1 o.participants := by
  refine ⟨Nat.le_of_eq ?_, fun l hlive _ => ?_⟩
  · exact (epochs_nextEpoch w p).symm.trans (epochs_setPhase (w.nextEpoch p).2 p _ p).symm
  · rw [phase_join_self] at hlive
    cases hlive
    rfl

namespace World.WellCast

/-- The identities of a session or an offer, and who is on the other side. -/
theorem fit (h : w.WellCast p) {participants : Participants}
    (hparticipants : (w.phase p).participants = some participants) :
    participants.Fit (w.identity p) ∧ (w.phase p).other = some participants.other := by
  cases hphase : w.phase p with
  | idle =>
      rw [hphase] at hparticipants
      cases hparticipants
  | offered o =>
      have hcast := h.of_offered hphase
      rw [hphase] at hparticipants
      cases hparticipants
      refine ⟨hcast.fit, ?_⟩
      rw [Participants.other, hcast.role_eq]
      rfl
  | live l =>
      rw [hphase] at hparticipants
      cases hparticipants
      exact ⟨(h.of_live hphase).fit, rfl⟩

/-- The side that the state names. -/
theorem role_of_status (h : w.WellCast p) {role : Role}
    (hstatus : (w.phase p).status = .pending role) : (w.phase p).role = some role := by
  cases hphase : w.phase p with
  | idle =>
      rw [hphase] at hstatus
      cases hstatus
  | offered o =>
      rw [hphase] at hstatus
      cases hstatus
      exact congrArg some (h.of_offered hphase).role_eq
  | live l =>
      rw [hphase, Phase.status] at hstatus
      split at hstatus
      · cases hstatus
      · next hconfirmed =>
          cases hstatus
          exact congrArg some ((h.of_live hphase).role_eq (Bool.not_eq_true _ ▸ hconfirmed))

/-- The side that the strategy was made for. -/
theorem priority_eq (h : w.WellCast p) {role : Role} {x : Priority}
    (hrole : (w.phase p).role = some role) (hpriority : (w.phase p).priority? = some x) :
    x = role.priority := by
  cases hphase : w.phase p with
  | idle | offered =>
      rw [hphase] at hpriority
      cases hpriority
  | live l =>
      rw [hphase] at hrole hpriority
      rw [← Option.some.inj hrole]
      exact (h.of_live hphase).priority_eq x hpriority

end World.WellCast

/-- Who has begun a session by offering a document is told so, and is its initiator as long as it
lasts. -/
theorem initiator_of_start {our other : PeerId} {name : Option Text} {fileName : Text} {w₁ : World}
    (h : w.start p our name other fileName d = (.ok (), w₁)) :
    (w₁.party p).events = (w.party p).events ++ [.started other .initiator] ∧
      ∃ l, w₁.phase p = .live l ∧ l.participants = ⟨w.identity p, w.identity p, other⟩ ∧
        ∀ w₂ l₂, w₁.Later w₂ → w₂.phase p = .live l₂ → l₂.epoch = l.epoch →
          l₂.participants = l.participants ∧ l₂.participants.role = .initiator := by
  obtain ⟨reason, hrefused⟩ | ⟨-, hour, -, s, -, ⟨reason, hlapsed⟩ | ⟨m, hbegun⟩⟩ :=
    w.start_cases p our name other fileName d
  · cases hrefused.symm.trans h
  · cases hlapsed.symm.trans h
  · cases hbegun.symm.trans h
    obtain ⟨id, hlive⟩ := w.exists_phase_initiate p d ⟨our, our, other⟩ s
    have hassigns := (w.assigns_initiate p d ⟨our, our, other⟩ s).worldSteps
      (.trans (.single (.send _ p other m)) (.single (.emit _ p (.started other .initiator))))
    refine ⟨?_, _, (phase_emit ..).trans ((phase_send ..).trans hlive), by rw [← hour], ?_⟩
    · rw [events_emit_self, party_send, events_initiate]
    · intro w₂ l₂ hlater hlive₂ hepoch
      have heq := (hlater.assigns hassigns).eq l₂ hlive₂ hepoch
      exact ⟨heq, by rw [heq]; exact if_pos rfl⟩

/-- Who has begun a session by accepting an offer is told so, unless the document refuses the
text, and is its receiver as long as it lasts, already while the text is written. -/
theorem receiver_of_accept (h : w.WellCast p) {depth : Nat} {o : Offered}
    {result : Except ShareError Unit} {w₁ : World} (hoffered : w.phase p = .offered o)
    (haccept : w.accept (World.write depth) p d = .ok (result, w₁)) :
    (result = .ok () →
      (w₁.party p).events.getLast? = some (.started o.participants.other .receiver)) ∧
    ∃ epoch v, (w.setWriting p true).enter p d o = .ok (epoch, v) ∧ v.Later w₁ ∧
      ∀ w₂ l₂, v.Later w₂ → w₂.phase p = .live l₂ → l₂.epoch = epoch →
        l₂.participants = o.participants ∧ l₂.participants.role = .receiver := by
  have hrole := (h.of_offered hoffered).role_eq
  obtain ⟨epoch, v, u, henter, hcallSteps, hcases⟩ := exists_enter_of_accept hoffered haccept
  refine ⟨?_, epoch, v, henter, ?_, fun w₂ l₂ hlater hlive₂ hepoch => ?_⟩
  · rintro rfl
    obtain ⟨⟨reason, hreason⟩, -⟩ | ⟨-, rfl⟩ := hcases
    · cases hreason
    · rw [(Silent.setWriting ..).events, events_emit_self, List.getLast?_concat,
        Participants.other, hrole]
  · obtain ⟨-, rfl⟩ | ⟨-, rfl⟩ := hcases
    · exact .of_callSteps (.tail (.tail hcallSteps (.endSession ..)) (.lock ..))
    · exact .of_callSteps (.tail (.tail hcallSteps (.emit ..)) (.lock ..))
  · obtain ⟨s, -, rfl, rfl⟩ := exists_join_of_enter henter
    have heq := (hlater.assigns (assigns_join _ p d o s)).eq l₂ hlive₂ hepoch
    exact ⟨heq, by rw [heq]; exact hrole⟩

/-- As long as its host is told of no offer of the party's own, a session or an offer
of a party is between two peers of which the party is one, and the state, the events and the
strategy name the side that the party is on.  Who begins a session by offering a document is its
initiator, and who begins one by accepting an offer its receiver, as long as it lasts. -/
theorem sides_agree (h : w.WithoutOwnOffer p) :
    (∀ participants, (w.phase p).participants = some participants →
      participants.our = w.identity p ∧ participants.initiator ≠ participants.receiver ∧
      (participants.our = participants.initiator ∨ participants.our = participants.receiver) ∧
      (w.phase p).other = some participants.other ∧ participants.other ≠ w.identity p) ∧
    (∀ role, (w.phase p).status = .pending role →
      (w.phase p).role = some role ∧ ((w.phase p).isInitiator = true ↔ role = .initiator)) ∧
    (∀ role x, (w.phase p).role = some role → (w.phase p).priority? = some x →
      x = role.priority) ∧
    (∀ our name other fileName d w₁, w.start p our name other fileName d = (.ok (), w₁) →
      (w₁.party p).events = (w.party p).events ++ [.started other .initiator] ∧
      ∃ l, w₁.phase p = .live l ∧ l.participants = ⟨w.identity p, w.identity p, other⟩ ∧
        ∀ w₂ l₂, w₁.Later w₂ → w₂.phase p = .live l₂ → l₂.epoch = l.epoch →
          l₂.participants = l.participants ∧ l₂.participants.role = .initiator) ∧
    ∀ depth d o result w₁, w.phase p = .offered o →
      w.accept (World.write depth) p d = .ok (result, w₁) →
      (result = .ok () →
        (w₁.party p).events.getLast? = some (.started o.participants.other .receiver)) ∧
      ∃ epoch v, (w.setWriting p true).enter p d o = .ok (epoch, v) ∧ v.Later w₁ ∧
        ∀ w₂ l₂, v.Later w₂ → w₂.phase p = .live l₂ → l₂.epoch = epoch →
          l₂.participants = o.participants ∧ l₂.participants.role = .receiver := by
  have hcast := h.wellCast
  refine ⟨fun participants hparticipants => ?_, fun role hstatus => ?_,
    fun role x hrole hpriority => hcast.priority_eq hrole hpriority,
    fun _ _ _ _ _ _ hstart => initiator_of_start hstart,
    fun _ _ _ _ _ hoffered haccept => receiver_of_accept hcast hoffered haccept⟩
  · obtain ⟨hfit, hother⟩ := hcast.fit hparticipants
    exact ⟨hfit.our, hfit.ne, hfit.mem, hother, hfit.our ▸ hfit.other_ne⟩
  · have hrole := hcast.role_of_status hstatus
    exact ⟨hrole, by simp [Phase.isInitiator, hrole]⟩

/-- Bob has been offered Alice's document, and accepts. -/
theorem sides_agree_accepted :
    ∃ w w₁ : World, w.WithoutOwnOffer 1 ∧ (w.phase 1).status = .pending .receiver ∧
      (w.phase 1).role = some .receiver ∧
      w.accept (World.write 0) 1 1 = .ok (.ok (), w₁) ∧
      (w₁.party 1).events.getLast? = some (.started (.ofByte 0xA1) .receiver) ∧
      (w₁.phase 1).role = some .receiver := by
  have hrun : ∃ w ∈ ((Pair.idle ['h', 'i'] .usual).world.runAll
        [.start 0 (.ofByte 0xA1) none (.ofByte 0xB0) [] 0, .handleNext 1]).toOption,
      ¬ w.OwnOffer 1 ∧ (w.phase 1).status = .pending .receiver ∧
        (w.phase 1).other = some (.ofByte 0xA1) ∧
        ∃ r ∈ (w.accept (World.write 0) 1 1).toOption, r.1 = .ok () ∧
          (r.2.phase 1).role = some .receiver := by
    decide +kernel
  obtain ⟨w, hw, hown, hstatus, hother, ⟨result, w₁⟩, haccept, rfl, hrole⟩ := hrun
  have hwithout := (WithoutOwnOffer.idle ['h', 'i'] .usual 1).callSteps
    (.runAll (eq_ok_of_mem_toOption hw)) hown
  have haccept := eq_ok_of_mem_toOption haccept
  obtain ⟨hsides, hstate, -, -, haccepted⟩ := sides_agree hwithout
  refine ⟨w, w₁, hwithout, hstatus, (hstate _ hstatus).1, haccept, ?_, hrole⟩
  cases hphase : w.phase 1 with
  | idle =>
      rw [hphase] at hother
      cases hother
  | live l =>
      rw [hphase, Phase.status] at hstatus
      split at hstatus <;> cases hstatus
  | offered o =>
      obtain ⟨-, -, -, hpeer, -⟩ := hsides o.participants (by rw [hphase]; rfl)
      rw [(haccepted 0 1 o _ w₁ hphase haccept).1 rfl, ← Option.some.inj (hother.symm.trans hpeer)]

/-- Alice is given an offer that names her as its sender and as its receiver.  Her state says
that she is the receiver, and so does what her host is told when she accepts, and so does the
priority of her strategy; but the identities make her the initiator. -/
theorem own_offer_mixes_roles :
    let alice : PeerId := .ofByte 0xA1
    let payload := Message.payload
      (.start ⟨alice, ['a'], alice, ['h', 'e', 'l', 'l', 'o'], ['f']⟩)
    ∃ w w₁ w₂ : World, World.Later .empty w ∧
      w.handleMessage (World.write 0) 0 alice payload = .ok (.ok (), w₁) ∧
      (w₁.phase 0).participants = some ⟨alice, alice, alice⟩ ∧
      (w₁.phase 0).status = .pending .receiver ∧ (w₁.phase 0).role = some .initiator ∧
      (w₁.phase 0).isInitiator = true ∧
      w₁.accept (World.write 0) 0 0 = .ok (.ok (), w₂) ∧
      (w₂.party 0).events.getLast? = some (.started alice .receiver) ∧
      (w₂.phase 0).role = some .initiator ∧
      (w₂.phase 0).priority? = some Role.receiver.priority := by
  intro alice payload
  let w := (Pair.idle ['h', 'i'] .usual).world
  have hrun : ∃ r ∈ (w.handleMessage (World.write 0) 0 alice payload).toOption,
      r.1 = .ok () ∧ (r.2.phase 0).participants = some ⟨alice, alice, alice⟩ ∧
        (r.2.phase 0).status = .pending .receiver ∧
        ∃ s ∈ (r.2.accept (World.write 0) 0 0).toOption,
          s.1 = .ok () ∧ (s.2.party 0).events.getLast? = some (.started alice .receiver) ∧
            (s.2.phase 0).role = some .initiator ∧
            (s.2.phase 0).priority? = some Role.receiver.priority := by
    decide +kernel
  obtain ⟨⟨result, w₁⟩, hmessage, rfl, hparticipants, hstatus, ⟨result, w₂⟩, haccept, rfl,
    hafter⟩ := hrun
  have hinitiator : (w₁.phase 0).role = some .initiator := by
    rw [Phase.role, hparticipants]
    rfl
  refine ⟨w, w₁, w₂, (WithoutOwnOffer.idle _ _ 0).later, eq_ok_of_mem_toOption hmessage,
    hparticipants,
    hstatus, hinitiator, by rw [Phase.isInitiator, hinitiator]; rfl,
    eq_ok_of_mem_toOption haccept, hafter⟩

end Session

end PairEdit
