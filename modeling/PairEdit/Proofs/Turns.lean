import PairEdit.Proofs.Speaking

/-!
# What a call does to two parties

In every call one party has its turn: it takes a message or answers its host, and says what
it has to.  `Turn` lists all that it can do then, with the conditions under which it does,
and `Wired.run` says that each call comes down to a turn of one party, about which the other
one may speak.
-/

namespace PairEdit

/-- Whether a message offers a document. -/
def Message.isStart : Message → Bool
  | .start _ => true
  | _ => false

namespace Session

open Function

/-- The calls that hosts may make at any time, with arguments of their choice. -/
inductive Interaction : Call → Prop
  | edit (d : Nat) (e : Edit) : Interaction (.edit d e)
  | start (p : Fin 2) (our : PeerId) (name : Option Text) (other : PeerId) (fileName : Text)
      (d : Nat) : Interaction (.start p our name other fileName d)
  | accept (p : Fin 2) (d : Nat) : Interaction (.accept p d)
  | decline (p : Fin 2) : Interaction (.decline p)
  | stop (p : Fin 2) : Interaction (.stop p)
  | handleNext (p : Fin 2) : Interaction (.handleNext p)

/-- Whether a call is one of those, to one of the two parties. -/
def Call.isInteraction : Call → Bool
  | .edit .. => true
  | .start p .. | .accept p _ | .decline p | .stop p | .handleNext p => decide (p < 2)
  | .disconnect _ | .pump _ | .handleMessage .. | .handleDisconnect .. | .serve _ => false

theorem isInteraction_iff {c : Call} : c.isInteraction = true ↔ Interaction c := by
  constructor
  · intro h
    cases c with
    | edit d e => exact .edit d e
    | start p => exact .start ⟨p, of_decide_eq_true h⟩ ..
    | accept p d => exact .accept ⟨p, of_decide_eq_true h⟩ d
    | decline p => exact .decline ⟨p, of_decide_eq_true h⟩
    | stop p => exact .stop ⟨p, of_decide_eq_true h⟩
    | handleNext p => exact .handleNext ⟨p, of_decide_eq_true h⟩
    | _ => cases h
  · rintro (⟨d, e⟩ | ⟨p⟩ | ⟨p⟩ | ⟨p⟩ | ⟨p⟩ | ⟨p⟩)
    · rfl
    all_goals exact decide_eq_true p.isLt

instance : DecidablePred Interaction := fun _ => decidable_of_iff _ isInteraction_iff

/-- The document that a call may write to. -/
def World.written (w : World) : Call → Option Nat
  | .edit d _ => some d
  | .accept _ d => some d
  | .handleNext p => (w.phase p).document
  | _ => none

/-- Two parties with identities of their own, whose limits are machine words. -/
structure Distinct (ids : Fin 2 → PeerId) (configs : Fin 2 → Config) : Prop where
  ids_ne : ids 0 ≠ ids 1
  messageBytes_le : ∀ p, (configs p).limits.messageBytes ≤ Word.max

/-- What a party can do in its turn: from what it takes, its phase and its count of
sessions, to what it sends, its new phase and count. -/
inductive Turn (ids : Fin 2 → PeerId) (config : Config) (p : Fin 2) :
    Option Message → Phase → Nat → List Message → Phase → Nat → Prop
  /-- A document was written, or nothing happened. -/
  | speaks {phase phase' : Phase} {epochs : Nat} {out : List Message} :
      Speaks config.limits phase out phase' →
      Turn ids config p none phase epochs out phase' epochs
  /-- An offer could not be sent. -/
  | fails {epochs : Nat} : Turn ids config p none .idle epochs [] .idle (epochs + 1)
  | starts {epochs d : Nat} {offer : Start} {capture : Option Nat} {bytes : Bytes} :
      offer.senderId = ids p → offer.receiverId = ids p.rev →
      (Message.start offer).encode config.limits = .ok bytes →
      Turn ids config p none .idle epochs [.start offer]
        (.live ⟨⟨ids p, ids p, ids p.rev⟩, epochs + 1, d, capture,
          .start config.strategy .initiator, false⟩) (epochs + 1)
  | enters {epochs d : Nat} {o : Offered} {l : Live} {s : Strategy} {capture : Option Nat}
      {out : List Message} :
      (Strategy.start config.strategy .receiver).skip? o.buffered = some s →
      Speaks config.limits (.live ⟨o.participants, epochs + 1, d, none, s, true⟩) out (.live l) →
      Turn ids config p none (.offered o) epochs out (.live { l with capture := capture })
        (epochs + 1)
  /-- The host stops or declines, or the offered text could not be written. -/
  | quits {phase : Phase} {epochs epochs' : Nat} : phase ≠ .idle → epochs ≤ epochs' →
      Turn ids config p none phase epochs (Message.stop.leaving config.limits) .idle epochs'
  /-- A message that cannot be read. -/
  | misses {m : Message} {phase : Phase} {epochs : Nat} :
      (∀ m', Message.decode config.limits m.payload ≠ .ok m') →
      Turn ids config p (some m) phase epochs [] phase epochs
  /-- A message to a session that is over. -/
  | ignores {m : Message} {epochs : Nat} : Message.decode config.limits m.payload = .ok m →
      m.isStart = false → Turn ids config p (some m) .idle epochs [] .idle epochs
  | isOffered {offer : Start} {epochs : Nat} :
      Message.decode config.limits (Message.start offer).payload = .ok (.start offer) →
      Turn ids config p (some (.start offer)) .idle epochs []
        (.offered ⟨⟨ids p, ids p.rev, ids p⟩, offer.senderName, offer.fileName,
          offer.documentText, 0⟩) epochs
  | refuses {offer : Start} {phase : Phase} {epochs : Nat} : phase ≠ .idle →
      Message.decode config.limits (Message.start offer).payload = .ok (.start offer) →
      Turn ids config p (some (.start offer)) phase epochs (Message.stop.leaving config.limits)
        phase epochs
  | absorbs {u : Update} {o o' : Offered} {epochs : Nat} :
      Message.decode config.limits (Message.update u).payload = .ok (.update u) →
      o.absorb? config.limits u.edit = some (.ok (), o') →
      Turn ids config p (some (.update u)) (.offered o) epochs [] (.offered o') epochs
  | applies {u : Update} {e : Edit} {l l' : Live} {s : Strategy} {capture : Option Nat}
      {out : List Message} {epochs : Nat} :
      Message.decode config.limits (Message.update u).payload = .ok (.update u) →
      l.strategy.receive? u = some (e, s) →
      Speaks config.limits (.live { l with strategy := s, confirmed := true, capture := none })
        out (.live l') →
      Turn ids config p (some (.update u)) (.live l) epochs out
        (.live { l' with capture := capture }) epochs
  /-- An update that cannot be applied ends the session or the offer. -/
  | breaks {u : Update} {phase : Phase} {epochs : Nat} : phase ≠ .idle →
      Message.decode config.limits (Message.update u).payload = .ok (.update u) →
      Turn ids config p (some (.update u)) phase epochs (Message.stop.leaving config.limits)
        .idle epochs
  | leaves {phase : Phase} {epochs : Nat} : phase ≠ .idle →
      Message.decode config.limits Message.stop.payload = .ok .stop →
      Turn ids config p (some .stop) phase epochs [] .idle epochs

/-- One party has its turn, and the other one speaks about what is written in it. -/
structure Moves (ids : Fin 2 → PeerId) (configs : Fin 2 → Config) (p : Fin 2)
    (taken : Option Message) (written : Option Nat) (posts : Fin 2 → Post)
    (out : Fin 2 → List Message) (posts' : Fin 2 → Post) : Prop where
  turn : Turn ids (configs p) p taken (posts p).phase (posts p).epochs (out p)
    (posts' p).phase (posts' p).epochs
  speaks : Speaks (configs p.rev).limits (posts p.rev).phase (out p.rev) (posts' p.rev).phase
  epochs_eq : (posts' p.rev).epochs = (posts p.rev).epochs
  takes : ∃ kept, (posts p).inbox = taken.toList ++ kept ∧ (posts' p).inbox = kept ++ out p.rev
  inbox_eq : (posts' p.rev).inbox = (posts p.rev).inbox ++ out p
  /-- Updates are about what is written to the document of the session. -/
  document : ∀ q u, .update u ∈ out q → ∃ d, written = some d ∧ (posts' q).phase.document = some d

variable {ids : Fin 2 → PeerId} {configs : Fin 2 → Config} {posts posts' : Fin 2 → Post}
variable {w w' : World} {p : Fin 2} {written : Option Nat}

theorem Offered.participants_of_absorb? {limits : Limits} {o o' : Offered} {e : Edit}
    {result : Except ShareError Unit} (h : o.absorb? limits e = some (result, o')) :
    o'.participants = o.participants := by
  rw [Offered.eq_of_absorb? h]

theorem eq_of_mem_leaving {limits : Limits} {m m' : Message} (h : m' ∈ m.leaving limits) :
    m' = m := by
  unfold Message.leaving at h
  split at h
  · exact List.mem_singleton.1 h
  · cases h

theorem not_update_mem_leaving_stop (limits : Limits) (u : Update) :
    .update u ∉ Message.stop.leaving limits := by
  intro h
  cases eq_of_mem_leaving h

theorem addressed_of_mem_leaving_stop {limits : Limits} {m : Message} (p : Fin 2)
    (h : m ∈ Message.stop.leaving limits) : Addressed ids p m := by
  obtain rfl := eq_of_mem_leaving h
  exact ⟨trivial, by simp⟩

theorem addressed_of_update {m : Message} (p : Fin 2) (h : m.InWords ∧ ∃ u, m = .update u) :
    Addressed ids p m := by
  obtain ⟨hwords, u, rfl⟩ := h
  exact ⟨hwords, by simp⟩

/-- A turn keeps to the two parties, in the phase and in what is sent. -/
theorem Turn.proper {config : Config} {taken : Option Message} {phase phase' : Phase}
    {epochs epochs' : Nat} {out : List Message}
    (h : Turn ids config p taken phase epochs out phase' epochs')
    (hproper : phase.Proper ids p) (hepoch : ∀ l, phase = .live l → l.epoch ≤ epochs) :
    phase'.Proper ids p ∧ (∀ l, phase' = .live l → l.epoch ≤ epochs') ∧
      ∀ m ∈ out, Addressed ids p.rev m := by
  cases h with
  | speaks hspeaks =>
      obtain ⟨hphase, hout⟩ := hspeaks.proper hproper
      refine ⟨hphase, ?_, fun m hm => addressed_of_update _ (hout m hm)⟩
      intro l hl
      cases phase with
      | idle | offered =>
          rw [(hspeaks.eq_of_not_live (by simp)).1] at hl
          cases hl
      | live l₀ =>
          obtain ⟨s, heq⟩ := hspeaks.of_live
          rw [heq] at hl
          cases hl
          exact hepoch l₀ rfl
  | fails => exact ⟨trivial, by simp, by simp⟩
  | starts hsender hreceiver hencode =>
      refine ⟨⟨.inl rfl, Strategy.inWords_start _ _⟩, ?_, ?_⟩
      · rintro _ ⟨⟩
        exact Nat.le_refl _
      · intro m hm
        obtain rfl := List.mem_singleton.1 hm
        refine ⟨trivial, ?_⟩
        rintro _ ⟨⟩
        rw [Fin.rev_rev]
        exact ⟨hsender, hreceiver⟩
  | enters hskip hspeaks =>
      have hlive := (Strategy.inWords_start config.strategy .receiver).skip? hskip
      obtain ⟨hphase, hout⟩ := hspeaks.proper ⟨.inr hproper, hlive⟩
      obtain ⟨s, heq⟩ := hspeaks.of_live
      cases heq
      refine ⟨hphase, ?_, fun m hm => addressed_of_update _ (hout m hm)⟩
      rintro _ ⟨⟩
      exact Nat.le_refl _
  | quits => exact ⟨trivial, by simp, fun m hm => addressed_of_mem_leaving_stop _ hm⟩
  | misses => exact ⟨hproper, hepoch, by simp⟩
  | ignores => exact ⟨trivial, by simp, by simp⟩
  | isOffered => exact ⟨rfl, by simp, by simp⟩
  | refuses => exact ⟨hproper, hepoch, fun m hm => addressed_of_mem_leaving_stop _ hm⟩
  | absorbs hdecode habsorb =>
      refine ⟨?_, by simp, by simp⟩
      exact (Offered.participants_of_absorb? habsorb).trans hproper
  | applies hdecode hreceive hspeaks =>
      have hle := hepoch _ rfl
      obtain ⟨hphase, hout⟩ := hspeaks.proper ⟨hproper.1, hproper.2.receive? hreceive⟩
      obtain ⟨s, heq⟩ := hspeaks.of_live
      cases heq
      refine ⟨hphase, ?_, fun m hm => addressed_of_update _ (hout m hm)⟩
      rintro _ ⟨⟩
      exact hle
  | breaks => exact ⟨trivial, by simp, fun m hm => addressed_of_mem_leaving_stop _ hm⟩
  | leaves => exact ⟨trivial, by simp, by simp⟩

namespace Moves

variable {taken : Option Message} {kept sent : List Message} {s : Post}

/-- A turn in which no document is written. -/
theorem of_silence (hinbox : (posts p).inbox = taken.toList ++ kept) (hkept : s.inbox = kept)
    (hturn : Turn ids (configs p) p taken (posts p).phase (posts p).epochs sent s.phase s.epochs)
    (hsent : ∀ u, .update u ∉ sent) :
    Moves ids configs p taken written posts (update (fun _ => []) p sent)
      (update (update posts p s) p.rev ((posts p.rev).setInbox ((posts p.rev).inbox ++ sent))) := by
  have hself : ∀ t : Post, update (update posts p s) p.rev t p = s := by
    intro t
    rw [update_of_ne (ne_rev p), update_self]
  refine ⟨?_, ?_, ?_, ⟨kept, hinbox, ?_⟩, ?_, ?_⟩
  · rwa [hself, update_self]
  · rw [update_self, update_of_ne (rev_ne p)]
    exact .silent _
  · rw [update_self]
    rfl
  · rw [hself, update_of_ne (rev_ne p), List.append_nil, hkept]
  · rw [update_self, update_self]
    rfl
  · intro q u hu
    rcases eq_or_eq_rev p q with rfl | rfl
    · rw [update_self] at hu
      exact absurd hu (hsent u)
    · rw [update_of_ne (rev_ne p)] at hu
      cases hu

/-- A turn in which nothing is sent. -/
theorem of_quiet (hinbox : (posts p).inbox = taken.toList ++ kept) (hkept : s.inbox = kept)
    (hturn : Turn ids (configs p) p taken (posts p).phase (posts p).epochs [] s.phase s.epochs) :
    Moves ids configs p taken written posts (fun _ => []) (update posts p s) := by
  have hmoves : Moves ids configs p taken written posts _ _ :=
    of_silence hinbox hkept hturn (by simp)
  have hsame : (posts p.rev).setInbox ((posts p.rev).inbox ++ []) =
      update posts p s p.rev := by
    rw [List.append_nil, update_of_ne (rev_ne p)]
    rfl
  have hnone : update (fun _ : Fin 2 => ([] : List Message)) p [] = fun _ => [] :=
    update_eq_self p _
  rwa [hsame, hnone, update_eq_self] at hmoves

/-- A turn that comes to writing a document; what the party listens with may be another
listener afterwards. -/
theorem of_bothSpeak {d : Nat} {out : Fin 2 → List Message} {phase : Phase}
    (hboth : BothSpeak configs d (update posts p s) out posts')
    (hinbox : (posts p).inbox = taken.toList ++ kept) (hkept : s.inbox = kept)
    (hturn : Turn ids (configs p) p taken (posts p).phase (posts p).epochs (out p) phase s.epochs)
    (hwritten : written = some d) (hdocument : out p ≠ [] → phase.document = some d) :
    Moves ids configs p taken written posts out
      (update posts' p ((posts' p).setPhase phase)) := by
  have hepochs := hboth.epochs_eq
  have hspeaks := hboth.speaks p.rev
  have hself := hboth.inbox_eq p
  have hrev := hboth.inbox_eq p.rev
  rw [update_self] at hself
  rw [update_of_ne (rev_ne p)] at hspeaks hrev
  rw [Fin.rev_rev] at hrev
  refine ⟨?_, ?_, ?_, ⟨kept, hinbox, ?_⟩, ?_, ?_⟩
  · rw [update_self, Post.setPhase_phase, Post.setPhase_epochs, hepochs, update_self]
    exact hturn
  · rwa [update_of_ne (rev_ne p)]
  · rw [update_of_ne (rev_ne p), hepochs, update_of_ne (rev_ne p)]
  · rw [update_self, Post.setPhase_inbox, hself, hkept]
  · rwa [update_of_ne (rev_ne p)]
  · intro q u hu
    refine ⟨d, hwritten, ?_⟩
    rcases eq_or_eq_rev p q with rfl | rfl
    · rw [update_self, Post.setPhase_phase]
      exact hdocument (List.ne_nil_of_mem hu)
    · have hq := hboth.document p.rev (List.ne_nil_of_mem hu)
      rw [update_of_ne (rev_ne p)] at hq
      rw [update_of_ne (rev_ne p), hspeaks.document_eq, hq]

/-- The parties have to do with each other only, whatever they do. -/
theorem proper {taken : Option Message} {out : Fin 2 → List Message}
    (h : Moves ids configs p taken written posts out posts')
    (hproper : ∀ q, (posts q).Proper ids q) (q : Fin 2) : (posts' q).Proper ids q := by
  obtain ⟨hphase, hepoch, hout⟩ := h.turn.proper (hproper p).phase (hproper p).epoch_le
  obtain ⟨hphase', hepoch', hout'⟩ :=
    (Turn.speaks h.speaks : Turn ids (configs p.rev) p.rev _ _ (posts p.rev).epochs _ _ _).proper
      (hproper p.rev).phase (hproper p.rev).epoch_le
  rcases eq_or_eq_rev p q with rfl | rfl
  · obtain ⟨kept, hinbox, hkept⟩ := h.takes
    refine ⟨hphase, hepoch, fun m hm => ?_⟩
    rcases List.mem_append.1 (hkept ▸ hm) with hm | hm
    · exact (hproper q).inbox m (hinbox ▸ List.mem_append_right _ hm)
    · rw [← Fin.rev_rev q]
      exact hout' m hm
  · refine ⟨hphase', h.epochs_eq ▸ hepoch', fun m hm => ?_⟩
    rcases List.mem_append.1 (h.inbox_eq ▸ hm) with hm | hm
    · exact (hproper p.rev).inbox m hm
    · exact hout m hm

theorem still (ids : Fin 2 → PeerId) (configs : Fin 2 → Config) (p : Fin 2)
    (written : Option Nat) (posts : Fin 2 → Post) :
    Moves ids configs p none written posts (fun _ => []) posts := by
  have hmoves : Moves ids configs p none written posts (fun _ => []) (update posts p (posts p)) :=
    of_quiet rfl rfl (.speaks (.silent _))
  rwa [update_eq_self] at hmoves

end Moves

namespace Wired

variable {d depth : Nat}

/-! ## Ending -/

/-- A party that ends what it has with its peer is idle, and says so. -/
theorem quit (h : Wired ids configs posts w) (hids : ids 0 ≠ ids 1) (p : Fin 2) (event : Event) :
    Wired ids configs (update (update posts p ((posts p).setPhase .idle)) p.rev
      ((posts p.rev).setInbox ((posts p.rev).inbox ++ Message.stop.leaving (configs p).limits)))
      (((w.leave p).emit p event).send p (ids p.rev) .stop).2 := by
  have hsend := ((h.leave p).emit p event).send hids p .stop
  rwa [update_of_ne (rev_ne p)] at hsend

theorem endSession (h : Wired ids configs posts w) (hids : ids 0 ≠ ids 1) {l : Live}
    (hphase : (posts p).phase = .live l) (hother : l.participants.other = ids p.rev)
    (reason : EndReason) :
    Wired ids configs (update (update posts p ((posts p).setPhase .idle)) p.rev
      ((posts p.rev).setInbox ((posts p.rev).inbox ++ Message.stop.leaving (configs p).limits)))
      (w.endSession p l.epoch reason) := by
  rw [World.endSession, h.phase_eq, hphase]
  dsimp only
  rw [if_pos rfl, hother]
  exact h.quit hids p _

theorem endOffer (h : Wired ids configs posts w) (hids : ids 0 ≠ ids 1) {o : Offered}
    (hphase : (posts p).phase = .offered o) (hinitiator : o.participants.initiator = ids p.rev)
    (reason : EndReason) :
    Wired ids configs (update (update posts p ((posts p).setPhase .idle)) p.rev
      ((posts p.rev).setInbox ((posts p.rev).inbox ++ Message.stop.leaving (configs p).limits)))
      (w.endOffer p (ids p.rev) reason) := by
  rw [World.endOffer, h.phase_eq, hphase]
  dsimp only
  rw [if_pos hinitiator]
  exact h.quit hids p _

/-- A party that stops ends what it has with its peer. -/
theorem stop (h : Wired ids configs posts w) (hids : ids 0 ≠ ids 1)
    (hproper : (posts p).phase.Proper ids p) (written : Option Nat) :
    ∃ out posts', Wired ids configs posts' (w.stop p).2 ∧
      Moves ids configs p none written posts out posts' := by
  rw [World.stop, h.phase_eq]
  cases hphase : (posts p).phase with
  | idle => exact ⟨_, posts, h, .still ids configs p written posts⟩
  | offered o =>
      rw [hphase] at hproper
      have hother : o.participants.initiator = ids p.rev := by rw [hproper]
      dsimp only
      rw [hother]
      refine ⟨_, _, h.quit hids p _, .of_silence rfl rfl ?_ (not_update_mem_leaving_stop _)⟩
      exact .quits (by simp [hphase]) (Nat.le_refl _)
  | live l =>
      rw [hphase] at hproper
      dsimp only
      rw [other_eq_of_proper hids hproper]
      refine ⟨_, _, h.quit hids p _, .of_silence rfl rfl ?_ (not_update_mem_leaving_stop _)⟩
      exact .quits (by simp [hphase]) (Nat.le_refl _)

/-- Declining is stopping, as far as there is an offer. -/
theorem decline (h : Wired ids configs posts w) (hids : ids 0 ≠ ids 1)
    (hproper : (posts p).phase.Proper ids p) (written : Option Nat) :
    ∃ out posts', Wired ids configs posts' (w.decline p).2 ∧
      Moves ids configs p none written posts out posts' := by
  cases hphase : (posts p).phase with
  | idle | live =>
      have hsame : (w.decline p).2 = w := by
        rw [World.decline, h.phase_eq, hphase]
      rw [hsame]
      exact ⟨_, posts, h, .still ids configs p written posts⟩
  | offered o =>
      have hstop : w.decline p = w.stop p := by
        rw [World.decline, World.stop, h.phase_eq, hphase]
      rw [hstop]
      exact h.stop hids hproper written

/-! ## Offering -/

/-- Nobody listens for a session that was not begun yet. -/
theorem epoch_ne (h : Wired ids configs posts w) {x : Nat × Subscriber}
    (hx : x ∈ (w.document d).listeners) : x.2 ≠ .capture p ((posts p).epochs + 1) := by
  intro hcapture
  have := h.epoch_le hx hcapture
  omega

/-- A party that begins a session listens to its document first. -/
theorem begin (h : Wired ids configs posts w) (hphase : (posts p).phase = .idle) {l : Live}
    (hepoch : l.epoch = (posts p).epochs + 1) :
    Wired ids configs (update posts p (((posts p).setEpochs ((posts p).epochs + 1)).setPhase
      (.live l)))
      (((w.nextEpoch p).2.attach p ((posts p).epochs + 1) l.document).2.setPhase p
        (.live l)) := by
  have hnext := h.nextEpoch p
  have hattach := hnext.attach p ((posts p).epochs + 1) l.document
    (by rw [update_self]; exact Nat.le_refl _)
    (by rw [update_self, Post.setEpochs_phase, hphase]; simp)
  have hset := hattach.setPhase p (.live l) (by
    rintro _ ⟨⟩ e x hx hcapture
    rw [hepoch] at hcapture
    by_contra hne
    rw [World.attach, World.document_setDocument_of_ne _ _ (Ne.symm hne)] at hx
    exact h.epoch_ne hx hcapture)
  rwa [update_self, update_idem] at hset

/-- Nothing is sent to a peer that is not on the network. -/
theorem send_stranger (h : Wired ids configs posts w) (hids : ids 0 ≠ ids 1) (p : Fin 2)
    {peer : PeerId} (hpeer : ∀ q, ids q ≠ peer) (m : Message) :
    ∃ reason, w.send p peer m = (.error reason, w) := by
  have hnone : w.network.attached? peer = none := by
    simp [Network.attached?, h.endpoints_eq, List.ofFn_succ, List.findIdx?_cons, hpeer]
  rw [World.send]
  cases m.encode (w.limits p) with
  | error reason => exact ⟨_, rfl⟩
  | ok payload =>
      refine ⟨.sync (.peerNotConnected peer), ?_⟩
      simp only [World.transmit, Network.send, (h.party p).1, h.endpoint_eq, Network.isConnected,
        h.attached?_eq hids, hnone, Option.isSome_some, Bool.not_true, Bool.false_eq_true, if_false]

/-- An idle party captures edits before its offer is sent, and is idle again when it could
not be sent. -/
theorem start_of_idle (h : Wired ids configs posts w) (hphase : (posts p).phase = .idle)
    {other : PeerId} (hother : ids p ≠ other) (name : Option Text) (fileName : Text) (d : Nat) :
    ∃ w₁ capture offer, offer.senderId = ids p ∧ offer.receiverId = other ∧
      Wired ids configs (update posts p (((posts p).setEpochs ((posts p).epochs + 1)).setPhase
        (.live ⟨⟨ids p, ids p, other⟩, (posts p).epochs + 1, d, capture,
          .start (configs p).strategy .initiator, false⟩))) w₁ ∧
      w.start p (ids p) name other fileName d =
        match w₁.send p other (.start offer) with
        | (.error reason, w) =>
            (.error reason, if (w.phase p).isEpoch ((posts p).epochs + 1) then w.leave p else w)
        | (.ok (), w) => (.ok (), w.emit p (.started other .initiator)) := by
  let w₂ := ((w.nextEpoch p).2.attach p ((posts p).epochs + 1) d).2
  have hconfig : (w₂.party p).config = configs p := by
    have hparty : w₂.party p = { w.party p with epochs := (w.party p).epochs + 1 } :=
      World.party_modifyParty_self w p _
    rw [hparty]
    exact (h.party p).2
  have hbegin := h.begin hphase (l := ⟨⟨ids p, ids p, other⟩, (posts p).epochs + 1, d,
    some ((w.nextEpoch p).2.attach p ((posts p).epochs + 1) d).1,
    .start (configs p).strategy .initiator, false⟩) rfl
  refine ⟨_, _, ⟨ids p, name.getD (ids p).short, other, (w.document d).text, fileName⟩, rfl, rfl,
    hbegin, ?_⟩
  rw [World.start, if_neg hother, if_neg (by simp [h.identity_eq p]), h.phase_eq, hphase,
    ← hconfig, ← h.fst_nextEpoch p]
  rfl

/-- A party that offers a document has a session with its peer then, or it stays idle. -/
theorem start (h : Wired ids configs posts w) (hids : ids 0 ≠ ids 1) (p : Fin 2) (our : PeerId)
    (name : Option Text) (other : PeerId) (fileName : Text) (d : Nat) (written : Option Nat) :
    ∃ out posts', Wired ids configs posts' (w.start p our name other fileName d).2 ∧
      Moves ids configs p none written posts out posts' := by
  by_cases hrefused : our = other ∨ our ≠ ids p ∨ (posts p).phase ≠ .idle
  · have hsame : (w.start p our name other fileName d).2 = w := by
      rw [World.start]
      split
      · rfl
      · split
        · rfl
        · rw [h.phase_eq]
          split
          · simp_all [h.identity_eq p]
          · rfl
    rw [hsame]
    exact ⟨_, posts, h, .still ids configs p written posts⟩
  · simp only [not_or, ne_eq, Decidable.not_not] at hrefused
    obtain ⟨hother, rfl, hphase⟩ := hrefused
    obtain ⟨w₁, capture, offer, hsender, hreceiver, hw₁, hstart⟩ :=
      h.start_of_idle hphase hother name fileName d
    rw [hstart]
    -- Whatever keeps the offer from being sent, the session is taken back.
    have hfails : ∀ reason, w₁.send p other (.start offer) = (.error reason, w₁) →
        ∃ out posts', Wired ids configs posts' (match w₁.send p other (.start offer) with
          | (.error reason, w) =>
              (Except.error reason,
                if (w.phase p).isEpoch ((posts p).epochs + 1) then w.leave p else w)
          | (.ok (), w) => (.ok (), w.emit p (.started other .initiator))).2 ∧
          Moves ids configs p none written posts out posts' := by
      intro reason hsend
      have hepoch : (w₁.phase p).isEpoch ((posts p).epochs + 1) = true := by
        rw [hw₁.phase_eq, update_self]
        exact beq_self_eq_true _
      have hleave := hw₁.leave p
      rw [update_self, update_idem] at hleave
      rw [hsend]
      dsimp only
      rw [if_pos hepoch]
      refine ⟨_, _, hleave, .of_quiet rfl rfl ?_⟩
      rw [hphase]
      exact .fails
    by_cases hpeer : other = ids p.rev
    · subst hpeer
      have hresult := hw₁.fst_send hids p (.start offer)
      have hsend := hw₁.send hids p (.start offer)
      rw [update_of_ne (rev_ne p), Message.leaving] at hsend
      cases hencode : (Message.start offer).encode (configs p).limits with
      | error reason => exact hfails (.sync reason) (by rw [World.send, hw₁.limits_eq, hencode])
      | ok bytes =>
          rw [hencode] at hresult hsend
          rw [show w₁.send p (ids p.rev) (.start offer) =
            (.ok (), (w₁.send p (ids p.rev) (.start offer)).2) from Prod.ext hresult rfl]
          refine ⟨_, _, hsend.emit p _, .of_silence rfl rfl ?_ (by simp)⟩
          rw [hphase]
          exact .starts hsender hreceiver hencode
    · have hstranger : ∀ q, ids q ≠ other := by
        intro q
        rcases eq_or_eq_rev p q with rfl | rfl
        · exact hother
        · exact Ne.symm hpeer
      obtain ⟨reason, hsend⟩ := hw₁.send_stranger hids p hstranger (.start offer)
      exact hfails reason hsend

/-! ## Accepting -/

/-- An accepted offer makes a session, whose text is still to be written. -/
theorem enter (h : Wired ids configs posts w) {o : Offered} {epoch : Nat}
    (henter : w.enter p d o = .ok (epoch, w')) :
    epoch = (posts p).epochs + 1 ∧
    ∃ s, (Strategy.start (configs p).strategy .receiver).skip? o.buffered = some s ∧
      Wired ids configs (update posts p (((posts p).setEpochs ((posts p).epochs + 1)).setPhase
        (.live ⟨o.participants, (posts p).epochs + 1, d, none, s, true⟩))) w' := by
  obtain ⟨s, hskip, hset⟩ := bind_eq_ok_iff.1 henter
  cases hset
  have hset := (h.nextEpoch p).setPhase p
    (.live ⟨o.participants, (posts p).epochs + 1, d, none, s, true⟩) (by
      rintro _ ⟨⟩ e x hx hcapture
      exact absurd hcapture (h.epoch_ne hx))
  rw [update_self, update_idem] at hset
  refine ⟨h.fst_nextEpoch p, s, ?_, ?_⟩
  · rw [orOverflow_eq_ok_iff, World.party_modifyParty_self] at hskip
    dsimp only at hskip
    rwa [(h.party p).2] at hskip
  · rw [← h.fst_nextEpoch p] at hset ⊢
    exact hset

/-- A live session after a write: it is captured again, if the write went well, and
otherwise it is ended. -/
theorem speak_and_resume {s : Post} (h : Wired ids configs (update posts p s) w)
    (hids : ids 0 ≠ ids 1) (hproper : ∀ q, (posts q).phase.Proper ids q) {l : Live}
    (hs : s.phase = .live l) (hlive : s.phase.Proper ids p) (hepoch : l.epoch ≤ s.epochs)
    {e : Edit} {result : Except DocumentError Unit} {w₂ : World}
    (hwrite : World.write depth l.document e w = .ok (result, w₂)) :
    (∃ reason, result = .error reason ∧ ∀ event, Wired ids configs
        (update (update posts p (s.setPhase .idle)) p.rev ((posts p.rev).setInbox
          ((posts p.rev).inbox ++ Message.stop.leaving (configs p).limits)))
        ((w₂.resume p l.epoch).endSession p l.epoch event)) ∨
    result = .ok () ∧ ∃ out posts₂ l' capture,
      BothSpeak configs l.document (update posts p s) out posts₂ ∧
      Speaks (configs p).limits (.live l) (out p) (.live l') ∧ l'.document = l.document ∧
      Wired ids configs
        (update posts₂ p ((posts₂ p).setPhase (.live { l' with capture := capture })))
        (w₂.resume p l.epoch) := by
  have hother : l.participants.other = ids p.rev := other_eq_of_proper hids (hs ▸ hlive)
  have hall : ∀ q, (update posts p s q).phase.Proper ids q := by
    intro q
    rcases eq_or_ne q p with rfl | hne
    · rwa [update_self]
    · rw [update_of_ne hne]
      exact hproper q
  rcases h.write hids hall hwrite with ⟨reason, rfl, rfl⟩ | ⟨rfl, out, posts₂, hw₂, hboth⟩
  · obtain ⟨capture, hresume⟩ := h.resume (p := p) (l := l) (by rw [update_self, hs])
      (by rwa [update_self])
    rw [update_self, update_idem] at hresume
    refine .inl ⟨reason, rfl, fun event => ?_⟩
    have hend := hresume.endSession hids (l := { l with capture := capture })
      (by rw [update_self, Post.setPhase_phase]) hother event
    rwa [update_self, update_idem, update_of_ne (rev_ne p)] at hend
  · have hspeaks := hboth.speaks p
    rw [update_self, hs] at hspeaks
    obtain ⟨strategy, heq⟩ := hspeaks.of_live
    have hepochs := hboth.epochs_eq p
    rw [update_self] at hepochs
    obtain ⟨capture, hresume⟩ := hw₂.resume heq (by rwa [hepochs])
    rw [heq] at hspeaks
    exact .inr ⟨rfl, out, posts₂, _, capture, hboth, hspeaks, rfl, hresume⟩

/-- A party that accepts has a session with its peer then, unless the offered text could not
be written. -/
theorem accept (h : Wired ids configs posts w) (hids : ids 0 ≠ ids 1)
    (hproper : ∀ q, (posts q).phase.Proper ids q) {result : Except ShareError Unit}
    (haccept : w.accept (World.write depth) p d = .ok (result, w')) :
    ∃ out posts', Wired ids configs posts' w' ∧
      Moves ids configs p none (some d) posts out posts' := by
  rw [World.accept] at haccept
  split at haccept
  · cases haccept
  rw [h.phase_eq] at haccept
  cases hphase : (posts p).phase with
  | idle | live =>
      rw [hphase] at haccept
      cases haccept
      exact ⟨_, posts, h, .still ids configs p _ posts⟩
  | offered o =>
      rw [hphase] at haccept
      obtain ⟨⟨epoch, w₁⟩, henter, haccept⟩ := bind_eq_ok_iff.1 haccept
      obtain ⟨⟨written, w₂⟩, hwrite, haccept⟩ := bind_eq_ok_iff.1 haccept
      obtain ⟨rfl, s, hskip, hw₁⟩ := (h.setWriting p true).enter henter
      have hoffered : o.participants = ⟨ids p, ids p.rev, ids p⟩ := by
        have hpropers := hproper p
        rwa [hphase] at hpropers
      have hlive : (Phase.live ⟨o.participants, (posts p).epochs + 1, d, none, s, true⟩).Proper
          ids p := ⟨.inr hoffered, (Strategy.inWords_start _ _).skip? hskip⟩
      rcases hw₁.speak_and_resume hids hproper rfl hlive (Nat.le_refl _) hwrite with
        ⟨reason, rfl, hended⟩ | ⟨rfl, out, posts₂, l', capture, hboth, hspeaks, hdocument, hw₂⟩
      · cases haccept
        refine ⟨_, _, (hended _).setWriting p false,
          .of_silence rfl rfl ?_ (not_update_mem_leaving_stop _)⟩
        exact .quits (by simp [hphase]) (Nat.le_succ _)
      · cases haccept
        refine ⟨out, _, (hw₂.emit p _).setWriting p false,
          .of_bothSpeak hboth rfl rfl ?_ rfl fun _ => congrArg some hdocument⟩
        rw [hphase]
        exact .enters hskip hspeaks

end Wired

end Session

end PairEdit
