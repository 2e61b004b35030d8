import PairEdit.Proofs.WorldSteps

/-!
# Who captures

A session captures local edits with one listener at a time, and takes it off when it ends.  So
a document has no listener of a party but the one that its live session captures with.  This
holds in every world that arises: whatever hosts do, documents do in reaction, and the network
does meanwhile.  A session is also known by its epoch, which no later session of the party has.
-/

namespace PairEdit.Session

/-- The session that is live in a phase captures with this listener of this document. -/
def Phase.CapturesWith (phase : Phase) (d id epoch : Nat) : Prop :=
  ∃ l, phase = .live l ∧ l.document = d ∧ l.capture = some id ∧ l.epoch = epoch

/-- A listener of a document captures for a party, in the session with this epoch. -/
def World.HasCapture (w : World) (d id p epoch : Nat) : Prop :=
  (id, .capture p epoch) ∈ (w.document d).listeners

/-- Only live sessions capture, and sessions are counted. -/
structure Subscribed (w : World) : Prop where
  capturesWith : ∀ d id p epoch, w.HasCapture d id p epoch → (w.phase p).CapturesWith d id epoch
  epoch_le : ∀ p l, w.phase p = .live l → l.epoch ≤ (w.party p).epochs

namespace World

variable {w : World} {d id p q epoch : Nat}

theorem HasCapture.of_unlisten {e j : Nat} (h : (w.unlisten e j).HasCapture d id p epoch) :
    w.HasCapture d id p epoch ∧ ¬ (d = e ∧ id = j) := by
  unfold HasCapture at h ⊢
  by_cases hd : d = e
  · subst hd
    simp only [unlisten, document_setDocument_self, Document.unlisten, List.mem_filter] at h
    exact ⟨h.1, fun hid => by simp [hid.2] at h⟩
  · rw [unlisten, document_setDocument_of_ne w _ hd] at h
    exact ⟨h, fun he => hd he.1⟩

theorem party_addParty_of_ne {peer : PeerId} {config : Config}
    (hq : (w.addParty peer config).1 ≠ q) : (w.addParty peer config).2.party q = w.party q := by
  simp only [addParty, party, addEndpoint, Table.get_push] at hq ⊢
  exact if_neg fun heq => hq heq.symm

/-- What a party that is made shares with none is as it was: the number was that of none. -/
theorem apply_party_addParty {α : Type} {π : Party → α} (w : World) (peer : PeerId)
    {config : Config}
    (hnew : ∀ endpoint, π ⟨endpoint, config, .idle, 0, false, [], false⟩ = π default) (q : Nat) :
    π ((w.addParty peer config).2.party q) = π (w.party q) := by
  simp only [World.addParty, World.party, World.addEndpoint, Table.get_push]
  split
  · next hq =>
      subst hq
      simp only [Table.get, List.getElem?_eq_none (Nat.le_refl _), Option.getD_none]
      exact hnew _
  · rfl

/-- What a phase captures with is gone when it is taken off. -/
theorem HasCapture.of_detach {phase : Phase} (h : (w.detach phase).HasCapture d id p epoch) :
    w.HasCapture d id p epoch ∧ ∀ e, ¬ phase.CapturesWith d id e := by
  cases phase with
  | live l =>
      cases hcapture : l.capture with
      | none =>
          simp only [detach, hcapture] at h
          refine ⟨h, ?_⟩
          rintro e ⟨l', hl', -, hid, -⟩
          cases hl'
          rw [hcapture] at hid
          cases hid
      | some j =>
          simp only [detach, hcapture] at h
          obtain ⟨hmem, hne⟩ := h.of_unlisten
          refine ⟨hmem, ?_⟩
          rintro e ⟨l', hl', hd, hid, -⟩
          cases hl'
          rw [hcapture] at hid
          exact hne ⟨hd.symm, (Option.some.inj hid).symm⟩
  | idle | offered =>
      refine ⟨h, ?_⟩
      rintro e ⟨l', hl', -⟩
      cases hl'

theorem HasCapture.of_attach {epoch' e : Nat}
    (h : (w.attach q epoch' e).2.HasCapture d id p epoch) :
    w.HasCapture d id p epoch ∨
      d = e ∧ id = (w.attach q epoch' e).1 ∧ p = q ∧ epoch = epoch' := by
  unfold HasCapture at h ⊢
  by_cases hd : d = e
  · subst hd
    simp only [attach, Document.listen, document_setDocument_self, List.mem_append,
      List.mem_singleton, Prod.mk.injEq, Subscriber.capture.injEq] at h
    obtain h | ⟨hid, hp, hepoch⟩ := h
    · exact .inl h
    · exact .inr ⟨rfl, hid, hp, hepoch⟩
  · rw [attach] at h
    dsimp only at h
    rw [document_setDocument_of_ne w _ hd] at h
    exact .inl h

theorem phase_setPhase_of_ne (w : World) (phase : Phase) (h : q ≠ p) :
    (w.setPhase p phase).phase q = w.phase q :=
  congrArg Party.phase (party_setPhase_of_ne w phase h)

@[simp]
theorem phase_detach (w : World) (phase : Phase) (p : Nat) :
    (w.detach phase).phase p = w.phase p :=
  congrArg Party.phase (party_detach w phase p)

@[simp]
theorem phase_send (w : World) (p : Nat) (peer : PeerId) (m : Message) (q : Nat) :
    (w.send p peer m).2.phase q = w.phase q :=
  congrArg Party.phase (party_send w p peer m q)

@[simp]
theorem epochs_setPhase (w : World) (p : Nat) (phase : Phase) (q : Nat) :
    ((w.setPhase p phase).party q).epochs = (w.party q).epochs :=
  apply_party_modifyParty (π := Party.epochs) (f := fun party => { party with phase := phase })
    (fun _ => rfl) p q

@[simp]
theorem phase_emit (w : World) (p : Nat) (event : Event) (q : Nat) :
    (w.emit p event).phase q = w.phase q :=
  apply_party_modifyParty (π := Party.phase)
    (f := fun party => { party with events := party.events ++ [event] }) (fun _ => rfl) p q

theorem epochs_emit (w : World) (p : Nat) (event : Event) (q : Nat) :
    ((w.emit p event).party q).epochs = (w.party q).epochs :=
  apply_party_modifyParty (π := Party.epochs)
    (f := fun party => { party with events := party.events ++ [event] }) (fun _ => rfl) p q

@[simp]
theorem phase_setWriting (w : World) (p : Nat) (writing : Bool) (q : Nat) :
    (w.setWriting p writing).phase q = w.phase q :=
  apply_party_modifyParty (π := Party.phase)
    (f := fun party => { party with writing := writing }) (fun _ => rfl) p q

theorem epochs_setWriting (w : World) (p : Nat) (writing : Bool) (q : Nat) :
    ((w.setWriting p writing).party q).epochs = (w.party q).epochs :=
  apply_party_modifyParty (π := Party.epochs)
    (f := fun party => { party with writing := writing }) (fun _ => rfl) p q

theorem phase_nextEpoch (w : World) (p q : Nat) : (w.nextEpoch p).2.phase q = w.phase q :=
  apply_party_modifyParty (π := Party.phase)
    (f := fun party => { party with epochs := (w.party p).epochs + 1 }) (fun _ => rfl) p q

theorem phase_suspend_self (w : World) (p : Nat) (l : Live) (s : Strategy) :
    (w.suspend p l s).phase p =
      .live { l with strategy := s, confirmed := true, capture := none } :=
  (phase_detach _ _ p).trans (phase_setPhase_self ..)

theorem epochs_nextEpoch (w : World) (p : Nat) :
    ((w.nextEpoch p).2.party p).epochs = (w.nextEpoch p).1 :=
  congrArg Party.epochs (party_modifyParty_self w p _)

end World

/-- A phase, with the number of sessions so far, and what may become of it in one step. -/
inductive Successor : Phase → Nat → Phase → Nat → Prop where
  | same (phase : Phase) (n : Nat) : Successor phase n phase n
  | idle (phase : Phase) (n : Nat) : Successor phase n .idle n
  | offered (phase : Phase) (n : Nat) (o : Offered) : Successor phase n (.offered o) n
  | live {l l' : Live} (n : Nat) (hepoch : l'.epoch = l.epoch)
      (hparticipants : l'.participants = l.participants) : Successor (.live l) n (.live l') n
  | begun (phase : Phase) (n : Nat) {l : Live} (hepoch : l.epoch = n + 1) :
      Successor phase n (.live l) (n + 1)

namespace WorldStep

open World

variable {w w' : World} {p : Nat}

/-- What becomes of the phase of one party that is put into another. -/
theorem successor_setPhase {q : Nat} {phase : Phase}
    (h : Successor (w.phase p) (w.party p).epochs phase (w.party p).epochs) :
    Successor (w.phase q) (w.party q).epochs ((w.setPhase p phase).phase q)
      ((w.setPhase p phase).party q).epochs := by
  rw [epochs_setPhase]
  by_cases hq : q = p
  · subst hq
    rw [phase_setPhase_self]
    exact h
  · rw [phase_setPhase_of_ne w phase hq]
    exact .same ..

theorem successor_begin {q : Nat} {l : Live} (hepoch : l.epoch = (w.party p).epochs + 1) :
    Successor (w.phase q) (w.party q).epochs (((w.nextEpoch p).2.setPhase p (.live l)).phase q)
      (((w.nextEpoch p).2.setPhase p (.live l)).party q).epochs := by
  rw [epochs_setPhase]
  by_cases hq : q = p
  · subst hq
    rw [phase_setPhase_self, epochs_nextEpoch]
    exact .begun _ _ hepoch
  · rw [phase_setPhase_of_ne _ _ hq, phase_nextEpoch, nextEpoch, party_modifyParty_of_ne w _ hq]
    exact .same ..

/-- What a step makes of the phase of a party. -/
theorem successor (h : WorldStep w w') (q : Nat) :
    Successor (w.phase q) (w.party q).epochs (w'.phase q) (w'.party q).epochs := by
  cases h with
  | text | unhook | note | receive | disconnect | release => exact .same ..
  | emit p event =>
      rw [phase_emit, epochs_emit]
      exact .same ..
  | send p peer m =>
      rw [phase_send, party_send]
      exact .same ..
  | vacate p =>
      rw [World.vacate, phase_detach, party_detach]
      exact successor_setPhase (.idle ..)
  | stay p => exact successor_setPhase (.same ..)
  | offer p o hidle => exact successor_setPhase (.offered ..)
  | absorb p o text n hoffered => exact successor_setPhase (.offered ..)
  | retune p l s hlive => exact successor_setPhase (hlive ▸ .live _ rfl rfl)
  | suspend p l s hlive =>
      rw [World.suspend, phase_detach, party_detach]
      exact successor_setPhase (hlive ▸ .live _ rfl rfl)
  | resume p epoch =>
      obtain ⟨heq, -⟩ | ⟨l, hlive, -, -, heq⟩ := w.resume_cases p epoch
      · rw [heq]
        exact .same ..
      · rw [heq]
        exact successor_setPhase (w := (w.attach p epoch l.document).2) (hlive ▸ .live _ rfl rfl)
  | initiate p d participants s hidle => exact successor_begin rfl
  | join p d o s hoffered => exact successor_begin rfl

/-- Sessions are only counted up. -/
theorem epochs_le (h : WorldStep w w') (p : Nat) : (w.party p).epochs ≤ (w'.party p).epochs := by
  have hsuccessor := h.successor p
  generalize w.phase p = phase, (w.party p).epochs = n, w'.phase p = phase',
    (w'.party p).epochs = n' at hsuccessor
  cases hsuccessor with
  | same | idle | offered | live => exact Nat.le_refl _
  | begun => exact Nat.le_succ _

end WorldStep

theorem WorldSteps.epochs_le {w w' : World} (h : WorldSteps w w') (p : Nat) :
    (w.party p).epochs ≤ (w'.party p).epochs :=
  h.invariant (P := fun v => (w.party p).epochs ≤ (v.party p).epochs)
    (fun hstep hv => Nat.le_trans hv (hstep.epochs_le p))
    (fun q writing hv => by rwa [World.epochs_setWriting]) (Nat.le_refl _)

/-- The session with an epoch is between these peers, while it lasts. -/
structure World.Assigns (w : World) (p epoch : Nat) (participants : Participants) : Prop where
  le : epoch ≤ (w.party p).epochs
  eq : ∀ l, w.phase p = .live l → l.epoch = epoch → l.participants = participants

namespace World.Assigns

variable {w w' : World} {p epoch : Nat} {participants : Participants}

theorem worldStep (h : w.Assigns p epoch participants) (hstep : WorldStep w w') :
    w'.Assigns p epoch participants := by
  obtain ⟨hle, heq⟩ := h
  refine ⟨Nat.le_trans hle (hstep.epochs_le p), ?_⟩
  have hsuccessor := hstep.successor p
  generalize w.phase p = phase, (w.party p).epochs = n, w'.phase p = phase',
    (w'.party p).epochs = n' at hsuccessor hle heq ⊢
  cases hsuccessor with
  | same => exact heq
  | idle | offered => nofun
  | live _ hepoch hparticipants =>
      rintro _ ⟨⟩ hl
      exact hparticipants.trans (heq _ rfl (hepoch.symm.trans hl))
  | begun _ _ hepoch =>
      rintro _ ⟨⟩ hl
      omega

theorem setWriting (h : w.Assigns p epoch participants) (q : Nat) (writing : Bool) :
    (w.setWriting q writing).Assigns p epoch participants :=
  ⟨by rw [epochs_setWriting]; exact h.le, by rw [phase_setWriting]; exact h.eq⟩

theorem worldSteps (h : w.Assigns p epoch participants) (hsteps : WorldSteps w w') :
    w'.Assigns p epoch participants :=
  hsteps.invariant (P := fun v => v.Assigns p epoch participants)
    (fun hstep hv => hv.worldStep hstep) (fun q writing hv => hv.setWriting q writing) h

end World.Assigns

namespace Subscribed

open World

variable {w w' : World} {p d : Nat}

/-- A change of no phase, with no more captures and no fewer sessions counted. -/
theorem congr (h : Subscribed w) (hphase : ∀ q, w'.phase q = w.phase q)
    (hcaptures : ∀ d id p epoch, w'.HasCapture d id p epoch → w.HasCapture d id p epoch)
    (hepochs : ∀ q, (w.party q).epochs ≤ (w'.party q).epochs) : Subscribed w' where
  capturesWith d id p epoch hcapture := by
    rw [hphase]
    exact h.capturesWith d id p epoch (hcaptures d id p epoch hcapture)
  epoch_le p l hlive := by
    rw [hphase] at hlive
    exact Nat.le_trans (h.epoch_le p l hlive) (hepochs p)

theorem modifyParty (h : Subscribed w) {f : Party → Party}
    (hphase : ∀ party, (f party).phase = party.phase)
    (hepochs : (w.party p).epochs ≤ (f (w.party p)).epochs) :
    Subscribed (w.modifyParty p f) where
  capturesWith d id q epoch hcapture := by
    rw [World.phase, apply_party_modifyParty (π := Party.phase) hphase]
    exact h.capturesWith d id q epoch hcapture
  epoch_le q l hlive := by
    rw [World.phase, apply_party_modifyParty (π := Party.phase) hphase] at hlive
    refine Nat.le_trans (h.epoch_le q l hlive) ?_
    by_cases hq : q = p
    · subst hq
      rw [party_modifyParty_self]
      exact hepochs
    · exact Nat.le_of_eq (congrArg Party.epochs (party_modifyParty_of_ne w f hq).symm)

/-- A phase that captures with what the one before did. -/
theorem setPhase (h : Subscribed w) {phase : Phase}
    (hcaptures : ∀ d id epoch, (w.phase p).CapturesWith d id epoch →
      phase.CapturesWith d id epoch)
    (hepoch : ∀ l, phase = .live l → l.epoch ≤ (w.party p).epochs) :
    Subscribed (w.setPhase p phase) where
  capturesWith d id q epoch hcapture := by
    have hold := h.capturesWith d id q epoch hcapture
    by_cases hq : q = p
    · subst hq
      rw [phase_setPhase_self]
      exact hcaptures d id epoch hold
    · rw [phase_setPhase_of_ne w phase hq]
      exact hold
  epoch_le q l hlive := by
    rw [epochs_setPhase]
    by_cases hq : q = p
    · subst hq
      rw [phase_setPhase_self] at hlive
      exact hepoch l hlive
    · rw [phase_setPhase_of_ne w phase hq] at hlive
      exact h.epoch_le q l hlive

/-- A phase that captures nothing, with the listener of the one before taken off. -/
theorem withdraw (h : Subscribed w) {phase : Phase}
    (hepoch : ∀ l, phase = .live l → l.epoch ≤ (w.party p).epochs) :
    Subscribed ((w.setPhase p phase).detach (w.phase p)) where
  capturesWith d id q epoch hcapture := by
    obtain ⟨hcapture, hgone⟩ := hcapture.of_detach
    have hold := h.capturesWith d id q epoch hcapture
    have hq : q ≠ p := fun hq => hgone epoch (hq ▸ hold)
    rw [phase_detach, phase_setPhase_of_ne w phase hq]
    exact hold
  epoch_le q l hlive := by
    rw [phase_detach] at hlive
    rw [party_detach, epochs_setPhase]
    by_cases hq : q = p
    · subst hq
      rw [phase_setPhase_self] at hlive
      exact hepoch l hlive
    · rw [phase_setPhase_of_ne w phase hq] at hlive
      exact h.epoch_le q l hlive

/-- A session that begins to capture, when the phase before captured nothing. -/
theorem attach (h : Subscribed w) {l : Live}
    (hnone : ∀ d id epoch, ¬ (w.phase p).CapturesWith d id epoch)
    (hcapture : l.capture = some (w.attach p l.epoch l.document).1)
    (hepoch : l.epoch ≤ (w.party p).epochs) :
    Subscribed ((w.attach p l.epoch l.document).2.setPhase p (.live l)) where
  capturesWith d id q epoch hmem := by
    obtain hold | ⟨rfl, rfl, rfl, rfl⟩ := HasCapture.of_attach hmem
    · have hphase := h.capturesWith d id q epoch hold
      have hq : q ≠ p := fun hq => hnone d id epoch (hq ▸ hphase)
      rw [phase_setPhase_of_ne _ _ hq]
      exact hphase
    · rw [phase_setPhase_self]
      exact ⟨l, rfl, rfl, hcapture, rfl⟩
  epoch_le q l' hlive := by
    rw [epochs_setPhase]
    by_cases hq : q = p
    · subst hq
      rw [phase_setPhase_self] at hlive
      cases hlive
      exact hepoch
    · rw [phase_setPhase_of_ne _ _ hq] at hlive
      exact h.epoch_le q l' hlive

/-- A party that has no live session captures nothing. -/
theorem not_hasCapture (h : Subscribed w) (hidle : w.phase p = .idle) (d id epoch : Nat) :
    ¬ w.HasCapture d id p epoch := by
  intro hcapture
  obtain ⟨l, hlive, -⟩ := h.capturesWith d id p epoch hcapture
  rw [hidle] at hlive
  cases hlive

theorem vacate (h : Subscribed w) (p : Nat) : Subscribed (w.vacate p) :=
  h.withdraw nofun

theorem suspend (h : Subscribed w) {l : Live} {s : Strategy} (hlive : w.phase p = .live l) :
    Subscribed (w.suspend p l s) := by
  have hwithdraw : Subscribed ((w.setPhase p (.live { l with
      strategy := s, confirmed := true, capture := none })).detach (w.phase p)) := by
    refine h.withdraw ?_
    rintro _ ⟨⟩
    exact h.epoch_le p l hlive
  rw [hlive] at hwithdraw
  exact hwithdraw

theorem resume (h : Subscribed w) (p epoch : Nat) : Subscribed (w.resume p epoch) := by
  obtain ⟨heq, -⟩ | ⟨l, hlive, rfl, hcapture, heq⟩ := w.resume_cases p epoch
  · rwa [heq]
  · rw [heq]
    refine h.attach (l := { l with capture := some _ }) ?_ rfl (h.epoch_le p l hlive)
    rintro d id epoch ⟨l', hl', -, hid, -⟩
    cases hl'.symm.trans hlive
    rw [hcapture] at hid
    cases hid

theorem nextEpoch (h : Subscribed w) (p : Nat) : Subscribed (w.nextEpoch p).2 :=
  h.modifyParty (fun _ => rfl) (Nat.le_succ _)

theorem initiate (h : Subscribed w) (participants : Participants) (s : Strategy)
    (hidle : w.phase p = .idle) : Subscribed (w.initiate p d participants s) := by
  have hphase : (w.nextEpoch p).2.phase p = .idle := (phase_nextEpoch w p p).trans hidle
  refine (h.nextEpoch p).attach
    (l := ⟨participants, (w.nextEpoch p).1, d, some _, s, false⟩) ?_ rfl ?_
  · rintro d id epoch ⟨l, hl, -⟩
    rw [hphase] at hl
    cases hl
  · exact Nat.le_of_eq (epochs_nextEpoch w p).symm

theorem join (h : Subscribed w) {o : Offered} (s : Strategy) (hoffered : w.phase p = .offered o) :
    Subscribed (w.join p d o s) := by
  have hphase : (w.nextEpoch p).2.phase p = .offered o := (phase_nextEpoch w p p).trans hoffered
  refine (h.nextEpoch p).setPhase ?_ ?_
  · rintro d id epoch ⟨l, hl, -⟩
    rw [hphase] at hl
    cases hl
  · rintro _ ⟨⟩
    exact Nat.le_of_eq (epochs_nextEpoch w p).symm

theorem setDocument (h : Subscribed w) {document : Document Subscriber}
    (hcaptures : ∀ id p epoch, (id, .capture p epoch) ∈ document.listeners →
      w.HasCapture d id p epoch) :
    Subscribed (w.setDocument d document) := by
  refine h.congr (fun _ => rfl) (fun e id p epoch hcapture => ?_) fun _ => Nat.le_refl _
  unfold HasCapture at hcapture
  by_cases he : e = d
  · subst he
    rw [document_setDocument_self] at hcapture
    exact hcaptures id p epoch hcapture
  · rw [document_setDocument_of_ne w document he] at hcapture
    exact hcapture

theorem setSurface (h : Subscribed w) (d : Nat) {f : Surface → Surface}
    (hf : ∀ s, (f s).document = s.document) :
    Subscribed { w with surfaces := w.surfaces.modify d f } := by
  have hdocument : ∀ e, ((w.surfaces.modify d f).get e).document = w.document e := by
    intro e
    by_cases he : e = d
    · subst he
      rw [Table.get_modify_self, hf]
      rfl
    · rw [Table.get_modify_of_ne _ f he]
      rfl
  refine h.congr (fun _ => rfl) (fun e id p epoch hcapture => ?_) fun _ => Nat.le_refl _
  unfold HasCapture at hcapture ⊢
  rw [← hdocument]
  exact hcapture

theorem worldStep (h : Subscribed w) (hstep : WorldStep w w') : Subscribed w' := by
  cases hstep with
  | text d t => exact h.setDocument fun _ _ _ hcapture => hcapture
  | unhook d => exact h.setSurface d fun _ => rfl
  | note | receive | disconnect | release =>
      exact h.congr (fun _ => rfl) (fun _ _ _ _ hcapture => hcapture) fun _ => Nat.le_refl _
  | emit p event => exact h.modifyParty (fun _ => rfl) (Nat.le_refl _)
  | send p peer m =>
      refine h.congr (phase_send w p peer m) (fun d id q epoch hcapture => ?_) fun q => ?_
      · rwa [HasCapture, document_send] at hcapture
      · exact Nat.le_of_eq (congrArg Party.epochs (party_send w p peer m q).symm)
  | vacate p => exact h.vacate p
  | stay p => exact h.setPhase (fun _ _ _ hl => hl) (h.epoch_le p)
  | offer p o hidle =>
      refine h.setPhase ?_ nofun
      rintro d id epoch ⟨l, hl, -⟩
      rw [hidle] at hl
      cases hl
  | absorb p o text n hoffered =>
      refine h.setPhase ?_ nofun
      rintro d id epoch ⟨l, hl, -⟩
      rw [hoffered] at hl
      cases hl
  | retune p l s hlive =>
      refine h.setPhase ?_ ?_
      · rintro d id epoch ⟨l', hl', hl'd⟩
        rw [hlive] at hl'
        cases hl'
        exact ⟨_, rfl, hl'd⟩
      · rintro _ ⟨⟩
        exact h.epoch_le p l hlive
  | suspend p l s hlive => exact h.suspend hlive
  | resume p epoch => exact h.resume p epoch
  | initiate p d participants s hidle => exact h.initiate participants s hidle
  | join p d o s hoffered => exact h.join s hoffered

theorem worldSteps (h : Subscribed w) (hsteps : WorldSteps w w') : Subscribed w' :=
  hsteps.invariant (fun hstep hw => hw.worldStep hstep)
    (fun _ _ hw => hw.modifyParty (fun _ => rfl) (Nat.le_refl _)) h

/-- The session with an epoch stays one between the same peers. -/
theorem participants_eq (h : Subscribed w) (hsteps : WorldSteps w w') {l l' : Live}
    (hlive : w.phase p = .live l) (hlive' : w'.phase p = .live l') (hepoch : l'.epoch = l.epoch) :
    l'.participants = l.participants := by
  have hassigns : w.Assigns p l.epoch l.participants :=
    ⟨h.epoch_le p l hlive, fun l₁ hlive₁ _ => by rw [hlive] at hlive₁; cases hlive₁; rfl⟩
  exact (hassigns.worldSteps hsteps).eq l' hlive' hepoch

theorem addParty (h : Subscribed w) (peer : PeerId) (config : Config) :
    Subscribed (w.addParty peer config).2 :=
  h.congr (apply_party_addParty (π := Party.phase) w peer fun _ => rfl)
    (fun _ _ _ _ hcapture => hcapture) fun q =>
      Nat.le_of_eq (apply_party_addParty (π := Party.epochs) w peer (fun _ => rfl) q).symm

theorem addDocument (h : Subscribed w) (text : Text) : Subscribed (w.addDocument text).2 := by
  refine h.congr (fun _ => rfl) (fun d id p epoch hcapture => ?_) fun _ => Nat.le_refl _
  simp only [HasCapture, World.document, World.addDocument, Table.get_push] at hcapture
  split at hcapture
  · cases hcapture
  · exact hcapture

theorem listen (h : Subscribed w) (d : Nat) (script : List (List Call)) :
    Subscribed (w.listen d script).2 := by
  have hscripts : Subscribed { w with scripts := (w.scripts.push script).2 } :=
    h.congr (fun _ => rfl) (fun _ _ _ _ hcapture => hcapture) fun _ => Nat.le_refl _
  refine hscripts.setDocument fun id p epoch hcapture => ?_
  obtain hold | hnew := List.mem_append.1 hcapture
  · exact hold
  · cases List.mem_singleton.1 hnew

end Subscribed

/-! ## Worlds that arise -/

/-- The worlds that come about, also in the middle of a call.  Nothing is asked of the network,
and a host may take off any listener. -/
inductive World.Arises : World → Prop where
  | empty : Arises .empty
  | network {w : World} (h : w.Arises) (n : Network) : Arises { w with network := n }
  | addParty {w : World} (h : w.Arises) (peer : PeerId) (config : Config) :
      Arises (w.addParty peer config).2
  | addDocument {w : World} (h : w.Arises) (text : Text) : Arises (w.addDocument text).2
  | listen {w : World} (h : w.Arises) (d : Nat) (script : List (List Call)) :
      Arises (w.listen d script).2
  | unlisten {w : World} (h : w.Arises) (d id : Nat) : Arises (w.unlisten d id)
  | setHook {w : World} (h : w.Arises) (d : Nat) (hook : Option Hook) : Arises (w.setHook d hook)
  | letGo {w : World} (h : w.Arises) (p : Nat) :
      Arises (w.modifyParty p fun party => { party with released := true })
  | letGoDocument {w : World} (h : w.Arises) (d : Nat) :
      Arises { w with surfaces := w.surfaces.modify d fun s => { s with released := true } }
  | events {w : World} (h : w.Arises) (p : Nat) (events : List Event) :
      Arises (w.modifyParty p fun party => { party with events := events })
  | writing {w : World} (h : w.Arises) (p : Nat) (writing : Bool) : Arises (w.setWriting p writing)
  | worldStep {w w' : World} (h : w.Arises) (hstep : WorldStep w w') : Arises w'

namespace World.Arises

variable {w w' : World}

theorem worldSteps (h : w.Arises) (hsteps : WorldSteps w w') : w'.Arises :=
  hsteps.invariant (fun hstep hw => .worldStep hw hstep)
    (fun p writing hw => .writing hw p writing) h

/-- What a call leads to arises. -/
theorem run (h : w.Arises) {c : Call} {outcome : Outcome} (hrun : w.run c = .ok (outcome, w')) :
    w'.Arises :=
  h.worldSteps (worldSteps_run hrun)

theorem arm (h : w.Arises) (d : Nat) (hook : Hook) : (w.arm d hook).Arises :=
  (Arises.setHook h d (some hook)).worldSteps (worldSteps_collect _)

theorem runAll (h : w.Arises) {calls : List Call} (hrun : w.runAll calls = .ok w') :
    w'.Arises := by
  induction calls generalizing w with
  | nil =>
      cases hrun
      exact h
  | cons c rest ih =>
      obtain ⟨⟨outcome, v⟩, hcall, hrun⟩ := bind_eq_ok_iff.1 hrun
      exact ih (h.run hcall) hrun

theorem idle (text : Text) (config : Config) : (Pair.idle text config).world.Arises :=
  .addDocument (.addDocument (.addParty (.addParty .empty _ _) _ _) _) _

theorem release (h : w.Arises) (p : Nat) : (w.release p).Arises :=
  (Arises.letGo h p).worldSteps (worldSteps_collect _)

theorem releaseDocument (h : w.Arises) (d : Nat) : (w.releaseDocument d).Arises :=
  (Arises.letGoDocument h d).worldSteps (worldSteps_collect _)

theorem subscribed (h : w.Arises) : Subscribed w := by
  induction h with
  | empty => exact ⟨nofun, nofun⟩
  | network _ n ih =>
      exact ih.congr (fun _ => rfl) (fun _ _ _ _ hcapture => hcapture) fun _ => Nat.le_refl _
  | addParty _ peer config ih => exact ih.addParty peer config
  | addDocument _ text ih => exact ih.addDocument text
  | listen _ d script ih => exact ih.listen d script
  | unlisten _ d id ih =>
      exact ih.setDocument fun _ _ _ hcapture => (List.mem_filter.1 hcapture).1
  | setHook _ d hook ih => exact ih.setSurface d fun _ => rfl
  | letGo _ p ih => exact ih.modifyParty (fun _ => rfl) (Nat.le_refl _)
  | letGoDocument _ d ih => exact ih.setSurface d fun _ => rfl
  | events _ p events ih => exact ih.modifyParty (fun _ => rfl) (Nat.le_refl _)
  | writing _ p writing ih => exact ih.modifyParty (fun _ => rfl) (Nat.le_refl _)
  | worldStep _ hstep ih => exact ih.worldStep hstep

end World.Arises

end PairEdit.Session
