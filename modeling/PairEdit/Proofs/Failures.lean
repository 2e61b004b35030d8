import PairEdit.Proofs.AllOrNothing
import PairEdit.Proofs.Enrollment
import PairEdit.Proofs.EventReplay
import PairEdit.Proofs.Roles

/-!
# Calls of the host that fail

A host learns from an error that its call came to nothing.  A session whose offer could not be
sent is taken back, with the listener that captured for it.  An offer that the document refused
to take in is over, and host and peer are told, as with an error that comes in.  Who stops is
idle even if the peer could not be told.
-/

namespace PairEdit

/-- A listener that was registered last is taken off without a trace. -/
theorem Document.Numbered.unlisten_listen {κ : Type} {d : Document κ} (h : d.Numbered)
    (listener : κ) :
    ((d.listen listener).2.unlisten d.nextId).2 = { d with nextId := d.nextId + 1 } := by
  have hold : d.listeners.filter (fun l => l.1 != d.nextId) = d.listeners :=
    List.filter_eq_self.2 fun l hl => bne_iff_ne.2 (Nat.ne_of_lt (h.lt l hl))
  simp [Document.unlisten, Document.listen, hold]

namespace Session

open World

variable {w w' : World} {p q d : Nat}

/-! ## Worlds that come about by what is really done -/

/-- The worlds that come about, also in the middle of a call, whichever listeners hosts take
off. -/
inductive World.Occurs : World → Prop where
  | empty : Occurs .empty
  | arranged {w w' : World} (h : w.Occurs) (harranged : Arranged (fun _ => True) w w') : Occurs w'
  | unlisten {w : World} (h : w.Occurs) (d id : Nat) : Occurs (w.unlisten d id)
  | callStep {w w' : World} (h : w.Occurs) (hcallStep : CallStep w w') : Occurs w'

namespace World.Addressed

theorem subsides (h : w.Addressed p) (hphase : Subsides w w') : w'.Addressed p := by
  intro o hoffered
  obtain heq | hidle := hphase.phase p
  · exact h o (heq ▸ hoffered)
  · cases hidle.symm.trans hoffered

/-- One party acts; only if it is this one it matters what it does. -/
theorem acts (h : w.Addressed p) (hkeeps : KeepsOthers (· = q) w w')
    (hact : p = q → ∀ o, w'.phase p = .offered o →
      o.participants.other = o.participants.initiator) : w'.Addressed p := by
  by_cases hq : p = q
  · exact hact hq
  · intro o hoffered
    obtain heq | hidle := hkeeps.phase_eq hq
    · exact h o (heq ▸ hoffered)
    · cases hidle.symm.trans hoffered

/-- A party that acts and has a session then has no offer. -/
theorem acts_live (h : w.Addressed p) (hkeeps : KeepsOthers (· = q) w w') {l : Live}
    (hlive : w'.phase q = .live l) : w'.Addressed p := by
  refine h.acts hkeeps ?_
  rintro rfl o hoffered
  cases hlive.symm.trans hoffered

theorem start (h : w.Addressed p) (q : Nat) (our : PeerId) (name : Option Text) (other : PeerId)
    (fileName : Text) (d : Nat) : (w.start q our name other fileName d).2.Addressed p := by
  obtain ⟨reason, hstart⟩ | ⟨-, -, -, s, -, hstart⟩ := w.start_cases q our name other fileName d
  · rwa [hstart]
  · have hinitiate := KeepsOthers.initiate w q d ⟨our, our, other⟩ s
    obtain ⟨id, hlive⟩ := w.exists_phase_initiate q d ⟨our, our, other⟩ s
    obtain ⟨reason, hstart⟩ | ⟨m, hstart⟩ := hstart
    · rw [hstart]
      exact h.subsides (.of_keepsOthers (hinitiate.trans (KeepsOthers.leave _ q))
        (phase_leave_self ..))
    · rw [hstart]
      exact h.acts_live (hinitiate.trans ((KeepsOthers.send ..).trans (KeepsOthers.emit _ q _)))
        ((phase_emit ..).trans ((phase_send ..).trans hlive))

theorem handleStart (h : w.Addressed p) (q : Nat) (sender : PeerId) (offer : Start) :
    (w.handleStart q sender offer).2.Addressed p := by
  obtain ⟨-, reason, heq⟩ | ⟨-, -, ⟨hidle, heq⟩ | ⟨-, heq⟩⟩ := w.handleStart_cases q sender offer
  · rwa [heq]
  · rw [heq]
    refine h.acts ((KeepsOthers.setPhase w q _).trans (KeepsOthers.emit _ q _)) ?_
    rintro rfl o hoffered
    rw [phase_emit, phase_setPhase_self] at hoffered
    cases hoffered
    exact Offered.other_ofStart offer
  · rw [heq]
    exact h.subsides ((Subsides.emit w q _).trans (.send _ q _ _))

theorem resume (h : w.Addressed p) (q epoch : Nat) : (w.resume q epoch).Addressed p := by
  cases hphase : w.phase q with
  | live l =>
      obtain ⟨capture, hlive⟩ := exists_live_resume hphase epoch
      exact h.acts_live (KeepsOthers.resume w q epoch) hlive
  | idle | offered =>
      simp only [World.resume, hphase]
      exact h

theorem capture (h : w.Addressed p) {epoch : Nat} {e : Edit}
    (hcapture : w.capture q epoch e = .ok w') : w'.Addressed p := by
  have hsent : ∀ (l : Live) (u : Update) (s : Strategy),
      ((w.setPhase q (.live { l with strategy := s })).send q l.participants.other
        (.update u)).2.Addressed p := by
    intro l u s
    have hset : (w.setPhase q (.live { l with strategy := s })).Addressed p :=
      h.acts_live (KeepsOthers.setPhase w q _) (phase_setPhase_self ..)
    exact hset.subsides (.send _ q l.participants.other (.update u))
  cases CaptureRun.of_capture hcapture with
  | skipped => exact h
  | sent l u s _ _ _ _ hsend =>
      have haddressed := hsent l u s
      rwa [hsend] at haddressed
  | unsent l u s reason _ _ _ _ hsend =>
      have haddressed := hsent l u s
      rw [hsend] at haddressed
      exact haddressed.subsides (.emit _ q _)

/-- Whatever is done, an offer is from the peer across. -/
theorem callStep (h : w.Addressed p) (hcallStep : CallStep w w') : w'.Addressed p := by
  cases hcallStep with
  | note | text | unhook | disconnect | receive => exact h.subsides (.of_phase_eq fun _ => rfl)
  | collect => exact h.subsides (.collect w)
  | lock q writing => exact h.subsides (.of_phase_eq (phase_setWriting w q writing))
  | emit q event => exact h.subsides (.emit w q event)
  | start q our name other fileName d => exact h.start q our name other fileName d
  | stop q => exact h.subsides (.of_endRun (.stop w q))
  | decline q => exact h.subsides (.of_endRun (.decline w q))
  | endSession => exact h.subsides (.of_endRun (.endSession ..))
  | endOffer => exact h.subsides (.of_endRun (.endOffer ..))
  | enter o hoffered henter =>
      obtain ⟨s, -, -, rfl⟩ := exists_join_of_enter henter
      exact h.acts_live (KeepsOthers.join w _ _ o s) (phase_join_self ..)
  | resume q epoch => exact h.resume q epoch
  | handleStart q sender offer => exact h.handleStart q sender offer
  | handleStop => exact h.subsides (.of_endRun (.handleStop ..))
  | handleDisconnect => exact h.subsides (.of_endRun (.handleDisconnect ..))
  | stay q =>
      refine h.acts (KeepsOthers.setPhase w q _) ?_
      rintro rfl o hoffered
      exact h o ((phase_setPhase_self ..).symm.trans hoffered)
  | @absorb q o text n hoffered =>
      refine h.acts (KeepsOthers.setPhase w q _) ?_
      rintro rfl o' hoffered'
      cases (phase_setPhase_self ..).symm.trans hoffered'
      exact h o hoffered
  | refuse l s hlive => exact h.acts_live (KeepsOthers.setPhase w _ _) (phase_setPhase_self ..)
  | suspend l s hlive => exact h.acts_live (KeepsOthers.suspend w _ l s) (phase_suspend_self ..)
  | capture hcapture => exact h.capture hcapture

end World.Addressed

namespace World.Occurs

theorem arises (h : w.Occurs) : w.Arises := by
  induction h with
  | empty => exact .empty
  | arranged _ harranged ih => exact harranged.arises ih
  | unlisten _ d id ih => exact .unlisten ih d id
  | callStep _ hcallStep ih =>
      obtain hsteps | ⟨p, writing, rfl⟩ := hcallStep.worldSteps_or_lock
      · exact ih.worldSteps hsteps
      · exact .writing ih p writing

theorem addressed (h : w.Occurs) (p : Nat) : w.Addressed p := by
  induction h with
  | empty => exact nofun
  | arranged _ harranged ih => exact ih.subsides ⟨harranged.phase_eq⟩
  | unlisten _ d id ih => exact ih
  | callStep _ hcallStep ih => exact ih.callStep hcallStep

theorem callSteps (h : w.Occurs) (hcallSteps : CallSteps w w') : w'.Occurs := by
  induction hcallSteps with
  | refl => exact h
  | tail _ hcallStep ih => exact .callStep ih hcallStep

theorem idle (text : Text) (config : Config) : (Pair.idle text config).world.Occurs :=
  .arranged (.arranged (.arranged (.arranged .empty (.addParty ..)) (.addParty ..))
    (.addDocument ..)) (.addDocument ..)

theorem runAll (h : w.Occurs) {calls : List Call} (hrun : w.runAll calls = .ok w') : w'.Occurs :=
  h.callSteps (CallSteps.runAll hrun)

end World.Occurs

/-! ## Numbers of listeners -/

/-- Every document numbers its listeners. -/
def World.AllNumbered (w : World) : Prop := ∀ d, (w.document d).Numbered

namespace World.AllNumbered

theorem of_document_eq (h : w.AllNumbered) (hdocument : ∀ d, w'.document d = w.document d) :
    w'.AllNumbered :=
  fun d => hdocument d ▸ h d

theorem setDocument (h : w.AllNumbered) {document : Document Subscriber}
    (hdocument : document.Numbered) : (w.setDocument d document).AllNumbered := by
  intro e
  by_cases he : e = d
  · subst he
    rwa [document_setDocument_self]
  · rw [document_setDocument_of_ne w _ he]
    exact h e

theorem detach (h : w.AllNumbered) (phase : Phase) : (w.detach phase).AllNumbered := by
  obtain heq | ⟨l, id, -, -, heq⟩ := w.detach_cases phase
  · rwa [heq]
  · rw [heq]
    exact h.setDocument ((h _).unlisten _)

theorem attach (h : w.AllNumbered) (p epoch d : Nat) : (w.attach p epoch d).2.AllNumbered :=
  h.setDocument ((h d).listen _)

theorem setSurface (h : w.AllNumbered) (d : Nat) {f : Surface → Surface}
    (hf : ∀ s, (f s).document = s.document) :
    AllNumbered { w with surfaces := w.surfaces.modify d f } := by
  refine h.of_document_eq fun e => ?_
  by_cases he : e = d
  · subst he
    rw [World.document, Table.get_modify_self, hf]
    rfl
  · rw [World.document, Table.get_modify_of_ne _ f he]
    rfl

theorem worldStep (h : w.AllNumbered) (hstep : WorldStep w w') : w'.AllNumbered := by
  cases hstep with
  | text d t => exact h.setDocument ((h d).setText t)
  | unhook d => exact h.setSurface d fun _ => rfl
  | send p peer m => exact h.of_document_eq (document_send w p peer m)
  | vacate p => exact detach (w := w.setPhase p .idle) h (w.phase p)
  | suspend p l s hlive => exact detach (w := w.setPhase p _) h (.live l)
  | resume p epoch =>
      obtain ⟨heq, -⟩ | ⟨l, -, -, -, heq⟩ := w.resume_cases p epoch
      · rwa [heq]
      · rw [heq]
        exact h.attach p epoch _
  | initiate p d participants s => exact attach (w := (w.nextEpoch p).2) h p _ d
  | note | emit | receive | disconnect | release | stay | offer | absorb | retune | join =>
      exact h.of_document_eq fun _ => rfl

end World.AllNumbered

theorem World.Arises.allNumbered (h : w.Arises) : w.AllNumbered := by
  induction h with
  | empty => exact fun _ => .ofText []
  | addDocument _ text ih =>
      intro d
      simp only [World.document, World.addDocument, Table.get_push]
      split
      · exact .ofText text
      · exact ih d
  | @listen w _ d script ih =>
      exact AllNumbered.setDocument (w := { w with scripts := (w.scripts.push script).2 }) ih
        ((ih d).listen _)
  | unlisten _ d id ih => exact ih.setDocument ((ih d).unlisten id)
  | setHook _ d hook ih => exact ih.setSurface d fun _ => rfl
  | letGoDocument _ d ih => exact ih.setSurface d fun _ => rfl
  | network | addParty | letGo | events | writing =>
      exact ‹AllNumbered _›.of_document_eq fun _ => rfl
  | worldStep _ hstep ih => exact ih.worldStep hstep

/-! ## To take back a session -/

/-- All is as it was, but that sessions and listeners were counted. -/
structure Unmoved (w w' : World) : Prop where
  network : w'.network = w.network
  party : ∀ q, w'.party q = { w.party q with epochs := (w'.party q).epochs }
  document : ∀ d, w'.document d = { w.document d with nextId := (w'.document d).nextId }
  hook : ∀ d, (w'.surfaces.get d).hook = (w.surfaces.get d).hook
  scripts : w'.scripts = w.scripts

theorem Unmoved.refl (w : World) : Unmoved w w :=
  ⟨rfl, fun _ => rfl, fun _ => rfl, fun _ => rfl, rfl⟩

/-- To begin a session and to leave it again. -/
theorem World.vacate_initiate (w : World) (p d : Nat) (participants : Participants)
    (s : Strategy) : (w.initiate p d participants s).vacate p =
      ((w.initiate p d participants s).setPhase p .idle).unlisten d (w.document d).nextId := by
  have hlive : (w.initiate p d participants s).phase p =
      .live ⟨participants, (w.nextEpoch p).1, d, some (w.document d).nextId, s, false⟩ :=
    phase_setPhase_self ..
  rw [vacate, hlive]
  rfl

theorem Unmoved.vacate_initiate (h : w.AllNumbered) (hidle : w.phase p = .idle) (d : Nat)
    (participants : Participants) (s : Strategy) :
    Unmoved w ((w.initiate p d participants s).vacate p) where
  network := network_vacate ..
  party q := by
    rw [World.vacate_initiate, party_unlisten]
    by_cases hq : q = p
    · subst hq
      simp only [World.initiate, World.attach, World.nextEpoch, party_setPhase_self,
        party_setDocument, party_modifyParty_self, ← hidle]
      rfl
    · rw [party_setPhase_of_ne _ _ hq]
      have hsame : (w.initiate p d participants s).party q = w.party q :=
        (party_setPhase_of_ne ((w.nextEpoch p).2.attach p _ d).2 _ hq).trans
          (party_modifyParty_of_ne w _ hq)
      rw [hsame]
  document e := by
    rw [World.vacate_initiate, World.unlisten]
    have hbegun : ∀ e, ((w.initiate p d participants s).setPhase p .idle).document e =
        ((w.nextEpoch p).2.attach p (w.nextEpoch p).1 d).2.document e := fun _ => rfl
    by_cases he : e = d
    · subst he
      rw [document_setDocument_self, hbegun, World.attach, document_setDocument_self]
      exact (h e).unlisten_listen _
    · rw [document_setDocument_of_ne _ _ he, hbegun, World.attach]
      rw [document_setDocument_of_ne _ _ he]
      rfl
  hook e := (hook_detach ..).trans (hook_setDocument (w.nextEpoch p).2 d e _)
  scripts := by
    rw [World.vacate_initiate]
    rfl

/-- To begin a session on a document is not to let go of it. -/
theorem World.released_initiate (w : World) (p d : Nat) (participants : Participants)
    (s : Strategy) (e : Nat) :
    ((w.initiate p d participants s).surfaces.get e).released = (w.surfaces.get e).released := by
  simp only [World.initiate, World.attach, World.setDocument, World.setPhase, World.modifyParty,
    World.nextEpoch]
  by_cases he : e = d
  · subst he
    rw [Table.get_modify_self]
  · rw [Table.get_modify_of_ne _ _ he]

/-- A start has come to nothing. -/
structure TakenBack (p d : Nat) (w w' : World) : Prop where
  phase : w'.phase p = w.phase p
  text : ∀ e, (w'.document e).text = (w.document e).text
  queue : ∀ id, (w'.network.endpoint id).queue = (w.network.endpoint id).queue
  events : ∀ q, (w'.party q).events = (w.party q).events
  /-- All other things are as they were too, and the listeners of every document.  Only if the
  host had let go of the document already, what was reached only through it is let go of. -/
  exists_unmoved : ∃ v, Unmoved w v ∧
    (w' = v ∨ (w.surfaces.get d).released = true ∧ w' = v.collect)

theorem Unmoved.phase_eq (h : Unmoved w w') (q : Nat) : w'.phase q = w.phase q := by
  rw [World.phase, h.party]
  rfl

theorem Unmoved.text_eq (h : Unmoved w w') (e : Nat) :
    (w'.document e).text = (w.document e).text := by
  rw [h.document]

theorem Unmoved.events_eq (h : Unmoved w w') (q : Nat) :
    (w'.party q).events = (w.party q).events := by
  rw [h.party]

/-- What is let go of was nothing to a party that is idle. -/
theorem Unmoved.takenBack (h : Unmoved w w') (hidle : w.phase p = .idle)
    (hreleased : (w.surfaces.get d).released = true) : TakenBack p d w w'.collect where
  phase := ((Silent.collect w').idle p ((h.phase_eq p).trans hidle)).trans hidle.symm
  text e := ((Silent.collect w').text e).trans (h.text_eq e)
  queue id := ((Silent.collect w').queue id).trans (by rw [h.network])
  events q := ((Silent.collect w').events q).trans (h.events_eq q)
  exists_unmoved := ⟨w', h, .inr ⟨hreleased, rfl⟩⟩

theorem TakenBack.of_unmoved (h : Unmoved w w') : TakenBack p d w w' where
  phase := h.phase_eq p
  text := h.text_eq
  queue id := by rw [h.network]
  events := h.events_eq
  exists_unmoved := ⟨w', h, .inl rfl⟩

/-- A start that fails is taken back. -/
theorem TakenBack.of_start (h : w.AllNumbered) {our other : PeerId} {name : Option Text}
    {fileName : Text} {reason : ShareError}
    (hstart : w.start p our name other fileName d = (.error reason, w')) : TakenBack p d w w' := by
  obtain ⟨_, hsame⟩ | ⟨-, -, hidle, s, -, ⟨_, hlapse⟩ | ⟨m, hbegun⟩⟩ :=
    w.start_cases p our name other fileName d
  · cases hstart.symm.trans hsame
    exact .of_unmoved (.refl w)
  · cases hstart.symm.trans hlapse
    obtain ⟨id, hlive⟩ := w.exists_phase_initiate p d ⟨our, our, other⟩ s
    have hunmoved := Unmoved.vacate_initiate h hidle d ⟨our, our, other⟩ s
    simp only [World.leave, hlive, Phase.document, World.released_initiate]
    split
    · next hreleased => exact hunmoved.takenBack hidle hreleased
    · exact .of_unmoved hunmoved
  · cases hstart.symm.trans hbegun

/-! ## The document refuses the offered text -/

/-- What a party leaves whose host accepted an offer that the document did not take in: the offer
is over, or the document made calls, and then the session that was begun is over or was ended by
them. -/
inductive NotTakenIn (depth p d : Nat) (w w' : World) : Prop where
  | tornDown (o : Offered) (hoffered : w.phase p = .offered o)
      (h : TornDown p o.participants.initiator w w')
  | afterCalls (o : Offered) (s : Strategy) (hook : Hook) (w₁ : World)
      (hoffered : w.phase p = .offered o) (hhook : (w.surfaces.get d).hook = some hook)
      (hcalls : hook.calls ≠ [])
      (hmade : makeAll (nestedCaller depth) hook.calls
        (((w.setWriting p true).join p d o s).fire d hook) = .ok w₁)
      (h : TornDown p o.participants.initiator w₁ w' ∨
        (w₁.phase p).isEpoch ((w.party p).epochs + 1) = false ∧ w' = w₁.setWriting p false)

theorem NotTakenIn.of_accept (harises : w.Arises) (haddressed : w.Addressed p) {depth : Nat}
    {reason : DocumentError}
    (h : w.accept (World.write depth) p d = .ok (.error (.document reason), w')) :
    NotTakenIn depth p d w w' := by
  cases (AcceptRun.of_accept h).2 with
  | @refused o epoch _ v w₁ hoffered henter hwritten =>
      obtain ⟨s, -, rfl, rfl⟩ := exists_join_of_enter henter
      have hlocked : (w.setWriting p true).phase p = .offered o :=
        (phase_setWriting ..).trans hoffered
      have hjoined : ((w.setWriting p true).join p d o s).Arises :=
        .worldStep (.writing harises p true) (.join _ p d o s hlocked)
      have hsilent : Silent w ((w.setWriting p true).join p d o s) :=
        (Silent.setWriting ..).trans (.join _ d s hlocked)
      have hlive := (w.setWriting p true).phase_join_self p d o s
      have hepoch : ((w.setWriting p true).nextEpoch p).1 = (w.party p).epochs + 1 :=
        congrArg (· + 1) (epochs_setWriting w p true p)
      have hother := haddressed o hoffered
      cases WriteFailed.of_write hjoined hlive hwritten with
      | tornDown h => exact .tornDown o hoffered (hother ▸ h.of_silent hsilent)
      | afterCalls hook hhook hcalls hmade h =>
          exact .afterCalls o s hook w₁ hoffered hhook hcalls hmade
            (h.imp (hother ▸ ·) fun hended => ⟨hepoch ▸ hended.1, hended.2⟩)

/-! ## The peer cannot be told -/

/-- The session or offer of a party is over.  Its host was told, and nobody else. -/
structure Parted (p : Nat) (peer : PeerId) (reason : EndReason) (w w' : World) : Prop where
  phase : w'.phase p = .idle
  not_hasCapture : ∀ d id epoch, ¬ w'.HasCapture d id p epoch
  text : ∀ d, (w'.document d).text = (w.document d).text
  events : (w'.party p).events = (w.party p).events ++ [.ended peer reason]
  queue : ∀ id, (w'.network.endpoint id).queue = (w.network.endpoint id).queue

theorem Parted.of_farewell (h : w.Arises) {peer other : PeerId} {reason : EndReason}
    {error : ShareError}
    (hsend : ((w.leave p).emit p (.ended peer reason)).send p other .stop = (.error error, w')) :
    Parted p peer reason w w' := by
  have hleave := Silent.leave w p
  have hsteps := worldSteps_farewell w p other (.ended peer reason)
  obtain ⟨_, hsame, -⟩ | ⟨_, hsent, -⟩ :=
    ((w.leave p).emit p (.ended peer reason)).send_cases p other .stop
  · cases hsend.symm.trans hsame
    rw [hsame] at hsteps
    have hphase : ((w.leave p).emit p (.ended peer reason)).phase p = .idle :=
      (phase_emit ..).trans (phase_leave_self w p)
    exact {
      phase := hphase
      not_hasCapture := (h.worldSteps hsteps).subscribed.not_hasCapture hphase
      text := fun d => (congrArg Document.text (document_emit ..)).trans (hleave.text d)
      events := (events_emit_self ..).trans (congrArg (· ++ _) (hleave.events p))
      queue := hleave.queue }
  · cases hsend.symm.trans hsent

theorem Parted.of_stop (h : w.Arises) {error : ShareError} (hstop : w.stop p = (.error error, w')) :
    (∃ l, w.phase p = .live l ∧ Parted p l.participants.other .localStop w w') ∨
      ∃ o, w.phase p = .offered o ∧ Parted p o.participants.initiator .declined w w' := by
  unfold World.stop at hstop
  cases hphase : w.phase p with
  | idle =>
      simp only [hphase] at hstop
      cases hstop
  | offered o =>
      simp only [hphase] at hstop
      exact .inr ⟨o, rfl, .of_farewell h hstop⟩
  | live l =>
      simp only [hphase] at hstop
      exact .inl ⟨l, rfl, .of_farewell h hstop⟩

/-- What goes wrong with a message goes wrong with writing it down or on the network. -/
theorem exists_sync_of_send {peer : PeerId} {m : Message} {error : ShareError}
    (h : w.send p peer m = (.error error, w')) : ∃ cause, error = .sync cause := by
  rw [send_eq] at h
  cases hencode : m.encode (w.limits p) with
  | error cause =>
      rw [hencode] at h
      cases h
      exact ⟨cause, rfl⟩
  | ok payload =>
      rw [hencode] at h
      cases hroute : w.route p peer with
      | error cause =>
          rw [hroute] at h
          cases h
          exact ⟨cause, rfl⟩
      | ok target =>
          rw [hroute] at h
          cases h

/-- Only a party without an offer has none to refuse. -/
theorem World.decline_error (h : w.Arises) {error : ShareError}
    (hdecline : w.decline p = (.error error, w')) :
    (error = .noPendingOffer ∧ w' = w) ∨ error ≠ .noPendingOffer ∧
      ∃ o, w.phase p = .offered o ∧ Parted p o.participants.initiator .declined w w' := by
  unfold World.decline at hdecline
  cases hphase : w.phase p with
  | offered o =>
      simp only [hphase] at hdecline
      refine .inr ⟨?_, o, rfl, .of_farewell h hdecline⟩
      obtain ⟨reason, hsame⟩ := exists_sync_of_send hdecline
      rintro rfl
      cases hsame
  | idle | live =>
      simp only [hphase] at hdecline
      cases hdecline
      exact .inl ⟨rfl, rfl⟩

theorem World.accept_noPendingOffer {write : Writer}
    (h : w.accept write p d = .ok (.error .noPendingOffer, w')) : w' = w := by
  cases (AcceptRun.of_accept h).2
  rfl

/-! ## Every call -/

/-- Whatever the world, the arguments, the limits and the network: a start that fails is taken
back; accepting or refusing an offer that there is not does nothing; an offer that the document
refuses is over, and host and peer are told; and who stops or refuses is idle, captures nothing
and has told its host once, even if the peer cannot be told.  When the document made calls before
it refused the offered text, this is said of the world they left, and the session may have ended
with them already. -/
theorem local_calls_fail_cleanly (h : w.Occurs) (p : Nat) :
    (∀ our name other fileName d reason w',
      w.start p our name other fileName d = (.error reason, w') → TakenBack p d w w') ∧
    (∀ depth d w', w.accept (World.write depth) p d = .ok (.error .noPendingOffer, w') → w' = w) ∧
    (∀ w', w.decline p = (.error .noPendingOffer, w') → w' = w) ∧
    (∀ depth d reason w',
      w.accept (World.write depth) p d = .ok (.error (.document reason), w') →
        NotTakenIn depth p d w w') ∧
    (∀ reason w', w.stop p = (.error reason, w') →
      (∃ l, w.phase p = .live l ∧ Parted p l.participants.other .localStop w w') ∨
        ∃ o, w.phase p = .offered o ∧ Parted p o.participants.initiator .declined w w') ∧
    ∀ reason w', w.decline p = (.error reason, w') → reason ≠ .noPendingOffer →
      ∃ o, w.phase p = .offered o ∧ Parted p o.participants.initiator .declined w w' := by
  have harises := h.arises
  refine ⟨fun our name other fileName d reason w' => TakenBack.of_start harises.allNumbered,
    fun depth d w' => accept_noPendingOffer, fun w' hdecline => ?_,
    fun depth d reason w' => NotTakenIn.of_accept harises (h.addressed p),
    fun reason w' => Parted.of_stop harises, fun reason w' hdecline hreason => ?_⟩
  · obtain ⟨-, heq⟩ | ⟨hne, -⟩ := decline_error harises hdecline
    · exact heq
    · exact absurd rfl hne
  · obtain ⟨heq, -⟩ | ⟨-, hparted⟩ := decline_error harises hdecline
    · exact absurd heq hreason
    · exact hparted

/-- Alice offers to a peer that is not there; Bob's document refuses the text of her offer; and
Bob is gone when she stops. -/
theorem local_calls_fail_cleanly_one_by_one :
    let alice : PeerId := .ofByte 0xA1
    (∃ w w' reason, w.Occurs ∧
      w.start 0 alice none (.ofByte 0xC2) [] 0 = (.error reason, w') ∧ TakenBack 0 0 w w') ∧
    (∃ w w' reason, w.Occurs ∧
      w.accept (World.write 1) 1 1 = .ok (.error (.document reason), w') ∧
      NotTakenIn 1 1 1 w w' ∧
      (w'.party 1).events = (w.party 1).events ++ [.ended alice .invalidOperation]) ∧
    ∃ w w' reason l, w.Occurs ∧ w.stop 0 = (.error reason, w') ∧ w.phase 0 = .live l ∧
      Parted 0 l.participants.other .localStop w w' := by
  intro alice
  have hidle : (Pair.idle ['a', 'b'] .usual).world.Occurs := .idle _ _
  refine ⟨?_, ?_, ?_⟩
  · have hfails : ((Pair.idle ['a', 'b'] .usual).world.start 0 alice none (.ofByte 0xC2)
        [] 0).1.toOption = none := by
      decide +kernel
    generalize hstart : (Pair.idle ['a', 'b'] .usual).world.start 0 alice none (.ofByte 0xC2)
      [] 0 = r at hfails
    obtain ⟨⟨reason⟩ | _, w'⟩ := r
    · obtain ⟨hstarts, -⟩ := local_calls_fail_cleanly hidle 0
      exact ⟨_, w', reason, hidle, hstart, hstarts _ _ _ _ _ _ _ hstart⟩
    · cases hfails
  · have hrun : ∃ v ∈ ((Pair.idle ['a', 'b'] .usual).world.runAll
          [.start 0 alice none Pair.bobId [] 0, .handleNext 1]).toOption,
        let w := v.arm 1 ⟨[], some "no"⟩
        ∃ r ∈ (w.accept (World.write 1) 1 1).toOption,
          r.1 = .error (.document (.rejected "no")) ∧
          (r.2.party 1).events = (w.party 1).events ++ [.ended alice .invalidOperation] := by
      decide +kernel
    obtain ⟨v, hv, ⟨result, w'⟩, hresult, hrejected, hevents⟩ := hrun
    have hoccurs : (v.arm 1 ⟨[], some "no"⟩).Occurs :=
      .arranged (hidle.runAll (eq_ok_of_mem_toOption hv)) (.arm 1 _ nofun)
    have haccept := eq_ok_of_mem_toOption hresult
    obtain rfl : result = .error (.document (.rejected "no")) := hrejected
    obtain ⟨-, -, -, hrefused, -⟩ := local_calls_fail_cleanly hoccurs 1
    exact ⟨_, w', .rejected "no", hoccurs, haccept, hrefused 1 1 _ w' haccept, hevents⟩
  · have hrun : ∃ w ∈ ((Pair.idle ['a', 'b'] .usual).world.runAll
          [.start 0 alice none Pair.bobId [] 0, .disconnect Pair.bobId]).toOption,
        (w.stop 0).1.toOption = none ∧ (w.phase 0).isSharing = true := by
      decide +kernel
    obtain ⟨w, hw, hnone, hsharing⟩ := hrun
    have hoccurs := hidle.runAll (eq_ok_of_mem_toOption hw)
    generalize hstop : w.stop 0 = r at hnone
    obtain ⟨⟨reason⟩ | _, w'⟩ := r
    · obtain ⟨-, -, -, -, hstops, -⟩ := local_calls_fail_cleanly hoccurs 0
      obtain ⟨l, hlive, hparted⟩ | ⟨o, hoffered, -⟩ := hstops reason w' hstop
      · exact ⟨w, w', reason, l, hoccurs, hstop, hlive, hparted⟩
      · rw [hoffered] at hsharing
        cases hsharing
    · cases hnone

/-- A document stops the session that is being begun, and then refuses the offered text.  The
host that accepted is told that it stopped, and never that the session was torn down. -/
theorem stopped_while_accepting :
    let alice : PeerId := .ofByte 0xA1
    ∃ (w w' : World) (reason : DocumentError), w.Occurs ∧
      w.accept (World.write w.pendingReactions) 1 1 = .ok (.error (.document reason), w') ∧
      (w.phase 1).other = some alice ∧
      (w'.party 1).events = (w.party 1).events ++ [.ended alice .localStop] ∧
      (w'.party 1).events ≠ (w.party 1).events ++ [.ended alice .invalidOperation] := by
  intro alice
  have hrun : ∃ v ∈ ((Pair.idle ['a', 'b'] .usual).world.runAll
        [.start 0 alice none Pair.bobId [] 0, .handleNext 1]).toOption,
      let w := v.arm 1 ⟨[.stop 1], some "no"⟩
      ∃ r ∈ (w.accept (World.write w.pendingReactions) 1 1).toOption,
        r.1 = .error (.document (.rejected "no")) ∧ (w.phase 1).other = some alice ∧
        (r.2.party 1).events = (w.party 1).events ++ [.ended alice .localStop] := by
    decide +kernel
  obtain ⟨v, hv, ⟨result, w'⟩, hresult, hrejected, hphase, hevents⟩ := hrun
  have hoccurs : (v.arm 1 ⟨[.stop 1], some "no"⟩).Occurs :=
    .arranged (World.Occurs.runAll (.idle _ _) (eq_ok_of_mem_toOption hv))
      (.arm 1 _ fun _ _ _ _ => trivial)
  have haccept := eq_ok_of_mem_toOption hresult
  obtain rfl : result = .error (.document (.rejected "no")) := hrejected
  refine ⟨_, w', .rejected "no", hoccurs, haccept, hphase, hevents, ?_⟩
  rw [hevents]
  simp

end Session

end PairEdit
