import PairEdit.Proofs.Seats
import PairEdit.Proofs.Silence

/-!
# Writes apart from a session

Hooks and listeners of the host may react to an edit with edits of other documents, which may
have hooks and listeners of their own.  As long as all of them keep away from a party and from
the document that it shares, a write does nothing to its session but call what captures there.
-/

namespace PairEdit.Session

open World

/-! ## Worlds with one active party -/

/-- No hook and no listener of the host will edit the document. -/
def World.Spares (w : World) (d : Nat) : Prop := ∀ c, w.Waits c → c.document? ≠ some d

/-- A call that keeps away from parties, and from the document that is shared in a phase. -/
structure Call.Avoids (phase : Phase) (c : Call) : Prop where
  party : c.party? = none
  document : ∀ d, phase.document = some d → c.document? ≠ some d

/-- All that happens is done by one host and by peers.  Hooks and listeners keep away from
parties and from the document that is shared.  Only one party takes part in sessions, its host
holds on to it, and it keeps backlogs. -/
structure World.Passive (p : Nat) (w : World) : Prop where
  party : ∀ c, w.Waits c → c.party? = none
  spares : ∀ d, (w.phase p).document = some d → w.Spares d
  idle : ∀ q, q ≠ p → w.phase q = .idle
  strategy : (w.party p).config.strategy = .backlog
  held : (w.party p).released = false

variable {w w' w'' : World} {p d depth epoch : Nat} {e : Edit} {caller : Caller}

theorem Silent.waits {c : Call} (h : Silent w w') (hc : w'.Waits c) : w.Waits c :=
  hc.of_le h.hook fun _ _ hnow => h.scripts ▸ hnow

theorem World.Spares.silent (hd : w.Spares d) (h : Silent w w') : w'.Spares d :=
  fun c hc => hd c (h.waits hc)

theorem send_surfaces (w : World) (p : Nat) (peer : PeerId) (m : Message) :
    (w.send p peer m).2.surfaces = w.surfaces := by
  rw [send_snd]
  split <;> rfl

theorem send_scripts (w : World) (p : Nat) (peer : PeerId) (m : Message) :
    (w.send p peer m).2.scripts = w.scripts := by
  rw [send_snd]
  split <;> rfl

namespace World.Passive

theorem avoids (hw : w.Passive p) {c : Call} (hc : w.Waits c) : c.Avoids (w.phase p) :=
  ⟨hw.party c hc, fun d hd => hw.spares d hd c hc⟩

/-- Nothing new waits, and the shared document, if there is one, is spared. -/
theorem of_le (hw : w.Passive p) (hwaits : ∀ c, w'.Waits c → w.Waits c)
    (hspares : ∀ d, (w'.phase p).document = some d → w.Spares d)
    (hidle : ∀ q, q ≠ p → w.phase q = .idle → w'.phase q = .idle)
    (hconfig : (w'.party p).config = (w.party p).config)
    (hreleased : (w'.party p).released = (w.party p).released) : w'.Passive p where
  party c hc := hw.party c (hwaits c hc)
  spares d hd c hc := hspares d hd c (hwaits c hc)
  idle q hq := hidle q hq (hw.idle q hq)
  strategy := by rw [hconfig, hw.strategy]
  held := hreleased.trans hw.held

theorem setPhase (hw : w.Passive p) {phase : Phase}
    (hspares : ∀ d, phase.document = some d → w.Spares d) : (w.setPhase p phase).Passive p := by
  refine hw.of_le (fun _ hc => hc) ?_ (fun q hq hidle => ?_) ?_ ?_
  · rw [phase_setPhase_self]
    exact hspares
  · rw [phase_setPhase_of_ne w phase hq, hidle]
  · exact apply_party_modifyParty (π := Party.config)
      (f := fun party => { party with phase := phase }) (fun _ => rfl) p p
  · exact apply_party_modifyParty (π := Party.released)
      (f := fun party => { party with phase := phase }) (fun _ => rfl) p p

/-- A phase in which nothing is shared. -/
theorem setPhase_apart (hw : w.Passive p) {phase : Phase} (hnone : phase.document = none) :
    (w.setPhase p phase).Passive p :=
  hw.setPhase fun d hd => by rw [hnone] at hd; cases hd

theorem emit (hw : w.Passive p) (event : Event) : (w.emit p event).Passive p := by
  refine hw.of_le (fun _ hc => hc) ?_ (fun q _ hidle => (phase_emit w p event q).trans hidle) ?_ ?_
  · rw [phase_emit]
    exact hw.spares
  · exact apply_party_modifyParty (π := Party.config)
      (f := fun party => { party with events := party.events ++ [event] }) (fun _ => rfl) p p
  · exact apply_party_modifyParty (π := Party.released)
      (f := fun party => { party with events := party.events ++ [event] }) (fun _ => rfl) p p

theorem send (hw : w.Passive p) (peer : PeerId) (m : Message) :
    (w.send p peer m).2.Passive p := by
  refine hw.of_le (fun c hc => ?_) ?_ (fun q _ hidle => (phase_send w p peer m q).trans hidle)
    (congrArg Party.config (party_send w p peer m p))
    (congrArg Party.released (party_send w p peer m p))
  · rwa [Waits, send_surfaces, send_scripts] at hc
  · rw [phase_send]
    exact hw.spares

theorem silent (hw : w.Passive p) (h : Silent w w')
    (hspares : ∀ d, (w'.phase p).document = some d → w.Spares d) : w'.Passive p :=
  hw.of_le (fun _ => h.waits) hspares (fun q _ => h.idle q) (h.config p) (h.released p)

theorem leave (hw : w.Passive p) : (w.leave p).Passive p := by
  refine hw.silent (.leave w p) ?_
  rw [phase_leave_self]
  nofun

theorem setWriting (hw : w.Passive p) (writing : Bool) : (w.setWriting p writing).Passive p := by
  refine hw.silent (.setWriting w p writing) ?_
  rw [phase_setWriting]
  exact hw.spares

theorem capture (hw : w.Passive p) (h : w.capture p epoch e = .ok w') : w'.Passive p := by
  have hsent : ∀ (l : Live) (u : Update) (s : Strategy), w.phase p = .live l →
      ((w.setPhase p (.live { l with strategy := s })).send p l.participants.other
        (.update u)).2.Passive p := by
    intro l u s hlive
    have hphase : (w.setPhase p (.live { l with strategy := s })).Passive p :=
      hw.setPhase fun d hd => hw.spares d (hlive ▸ hd)
    exact hphase.send l.participants.other (.update u)
  cases CaptureRun.of_capture h with
  | skipped => exact hw
  | sent l u s hlive _ _ _ hsend =>
      have hpassive := hsent l u s hlive
      rwa [hsend] at hpassive
  | unsent l u s reason hlive _ _ _ hsend =>
      have hpassive := hsent l u s hlive
      rw [hsend] at hpassive
      exact hpassive.emit _

end World.Passive

/-- Nobody captures a document that the party does not capture. -/
theorem captures_eq_nil (hsubscribed : Subscribed w) (hw : w.Passive p)
    (hnone : ∀ id epoch, ¬ (w.phase p).CapturesWith d id epoch) :
    captures (w.document d) = [] := by
  refine List.filter_eq_nil_iff.2 fun l hl => ?_
  obtain ⟨id, subscriber⟩ := l
  cases subscriber with
  | host i => exact Bool.false_ne_true
  | capture q epoch =>
      have hcaptures := hsubscribed.capturesWith d id q epoch hl
      by_cases hq : q = p
      · subst hq
        exact absurd hcaptures (hnone id epoch)
      · obtain ⟨l, hlive, -⟩ := hcaptures
        rw [hw.idle q hq] at hlive
        cases hlive

/-- Nobody captures a document that the party does not share. -/
theorem captures_eq_nil_of_ne (hsubscribed : Subscribed w) (hw : w.Passive p)
    (hne : (w.phase p).document ≠ some d) : captures (w.document d) = [] := by
  refine captures_eq_nil hsubscribed hw ?_
  rintro id epoch ⟨l, hlive, rfl, -⟩
  rw [hlive] at hne
  exact hne rfl

/-! ## What happens apart from sessions -/

/-- Texts may be new, hooks and scripts used up and peers gone, but no party has changed, and
nobody listens who did not, or has got a message. -/
structure Apart (w w' : World) : Prop where
  party : ∀ q, w'.party q = w.party q
  listeners : ∀ d, (w'.document d).listeners = (w.document d).listeners
  waits : ∀ c, w'.Waits c → w.Waits c
  queue : ∀ id, ∃ gone : List PeerId, (w'.network.endpoint id).queue =
    (w.network.endpoint id).queue ++ gone.map .disconnected
  peer : ∀ id, (w'.network.endpoint id).peer = (w.network.endpoint id).peer

namespace Apart

theorem of_eq (hparty : w'.parties = w.parties)
    (hlisteners : ∀ d, (w'.document d).listeners = (w.document d).listeners)
    (hwaits : ∀ c, w'.Waits c → w.Waits c) (hnetwork : w'.network = w.network) :
    Apart w w' where
  party q := by rw [World.party, hparty, World.party]
  listeners := hlisteners
  waits := hwaits
  queue id := ⟨[], by rw [hnetwork, List.map_nil, List.append_nil]⟩
  peer id := by rw [hnetwork]

theorem refl (w : World) : Apart w w := of_eq rfl (fun _ => rfl) (fun _ hc => hc) rfl

theorem trans (h : Apart w w') (h' : Apart w' w'') : Apart w w'' where
  party q := (h'.party q).trans (h.party q)
  listeners d := (h'.listeners d).trans (h.listeners d)
  waits c hc := h.waits c (h'.waits c hc)
  queue id := by
    obtain ⟨gone, hgone⟩ := h.queue id
    obtain ⟨gone', hgone'⟩ := h'.queue id
    exact ⟨gone ++ gone', by rw [hgone', hgone, List.map_append, List.append_assoc]⟩
  peer id := (h'.peer id).trans (h.peer id)

theorem phase_eq (h : Apart w w') (q : Nat) : w'.phase q = w.phase q :=
  congrArg Party.phase (h.party q)

theorem captures_eq (h : Apart w w') (d : Nat) :
    captures (w'.document d) = captures (w.document d) := by
  rw [captures, captures, h.listeners]

theorem passive (h : Apart w w') (hw : w.Passive p) : w'.Passive p := by
  refine hw.of_le h.waits ?_ (fun q _ hidle => (h.phase_eq q).trans hidle)
    (congrArg Party.config (h.party p)) (congrArg Party.released (h.party p))
  rw [h.phase_eq]
  exact hw.spares

theorem subscribed (h : Apart w w') (hw : Subscribed w) : Subscribed w' := by
  refine hw.congr h.phase_eq (fun d id q epoch hcapture => ?_) fun q =>
    Nat.le_of_eq (congrArg Party.epochs (h.party q)).symm
  rwa [HasCapture, h.listeners] at hcapture

theorem avoids (h : Apart w w') {c : Call} (hc : c.Avoids (w.phase p)) :
    c.Avoids (w'.phase p) := by
  rw [h.phase_eq]
  exact hc

theorem text (w : World) (d : Nat) (t : Text) :
    Apart w (w.setDocument d { w.document d with text := t }) := by
  refine of_eq rfl (fun e => ?_) (fun c hc => hc.of_le (fun e => .inl ?_) fun _ _ hnow => hnow) rfl
  · by_cases he : e = d
    · subst he
      rw [document_setDocument_self]
    · rw [document_setDocument_of_ne w _ he]
  · exact hook_setDocument w d e _

theorem unhook (w : World) (d : Nat) : Apart w (w.setHook d none) := by
  refine of_eq rfl (fun e => ?_)
    (fun c hc => hc.of_le (Silent.unhook w d).hook fun _ _ hnow => hnow) rfl
  by_cases he : e = d
  · subst he
    simp [World.document, World.setHook]
  · simp [World.document, World.setHook, Table.get_modify_of_ne _ _ he]

theorem note (w : World) (underway : List Call) (log : List Outcome) :
    Apart w { w with underway := underway, log := log } :=
  of_eq rfl (fun _ => rfl) (fun _ hc => hc) rfl

theorem fire (w : World) (d : Nat) (hook : Hook) : Apart w (w.fire d hook) :=
  (unhook w d).trans (note _ _ w.log)

/-- A listener of the host uses up what it would do in this call. -/
theorem useUp {i : Nat} {now : List Call} {later : List (List Call)}
    (h : w.scripts.get i = now :: later) :
    Apart w { w with scripts := w.scripts.set i later } := by
  refine of_eq rfl (fun _ => rfl)
    (fun c hc => hc.of_le (fun _ => .inl rfl) fun j now' hnow => ?_) rfl
  rw [Table.get_set] at hnow
  split at hnow
  · next hj =>
      rw [hj, h]
      exact List.mem_cons_of_mem _ hnow
  · exact hnow

theorem disconnect (w : World) (peer : PeerId) :
    Apart w { w with network := w.network.disconnect peer } where
  party _ := rfl
  listeners _ := rfl
  waits _ hc := hc
  queue id := by
    have hsame : ∃ gone : List PeerId, (w.network.endpoint id).queue =
        (w.network.endpoint id).queue ++ gone.map .disconnected := ⟨[], by simp⟩
    dsimp only
    unfold Network.disconnect
    split
    · simp only [Network.endpoint, Table.get, List.getElem?_map] at hsame ⊢
      cases w.network.endpoints.slots[id]? with
      | none => exact ⟨[], (List.append_nil _).symm⟩
      | some e =>
          simp only [Option.map_some, Option.getD_some, Network.Endpoint.leave]
          split
          · split
            · exact ⟨[], (List.append_nil _).symm⟩
            · exact ⟨[peer], rfl⟩
          · exact ⟨[], (List.append_nil _).symm⟩
    · exact hsame
  peer := peer_disconnect w.network peer

/-! ### Letting go -/

theorem setPhase_idle {q : Nat} (hidle : w.phase q = .idle) : Apart w (w.setPhase q .idle) where
  party r := by
    by_cases hr : r = q
    · subst hr
      rw [World.setPhase, party_modifyParty_self, ← hidle]
      rfl
    · exact party_setPhase_of_ne w .idle hr
  listeners _ := rfl
  waits _ hc := hc
  queue id := ⟨[], by simp⟩
  peer _ := rfl

theorem release (w : World) (id : Nat) :
    Apart w { w with network := w.network.release id } where
  party _ := rfl
  listeners _ := rfl
  waits _ hc := hc
  queue j := ⟨[], by rw [List.map_nil, List.append_nil, (Silent.release w id).queue]⟩
  peer := (Silent.release w id).peer

/-- A party that goes was idle. -/
theorem vacate (hw : w.Passive p) {q : Nat} (hheld : w.holdsParty q = false) :
    Apart w (w.vacate q) := by
  have hq : q ≠ p := by
    rintro rfl
    simp [holdsParty, hw.held] at hheld
  rw [World.vacate, hw.idle q hq]
  exact setPhase_idle (hw.idle q hq)

theorem collect (hw : w.Passive p) : Apart w w.collect := by
  have hclosed : ReleaseClosed fun w w' => w.Passive p → Apart w w' :=
    { refl := fun w _ => refl w
      trans := fun h h' hw => (h hw).trans (h' ((h hw).passive hw))
      unhook := fun w d _ => unhook w d
      vacate := fun hheld hw => vacate hw hheld
      release := fun w id _ => release w id }
  exact hclosed.collect w hw

end Apart

/-! ## Writes -/

/-- Calls that wait keep away from the party, and what is written is not captured. -/
def aparts (p : Nat) : Contract where
  pre w := w.Passive p ∧ Subscribed w
  calls w c := c.Avoids (w.phase p)
  writes w d := captures (w.document d) = []
  hears _ s := s.isCapture = false
  post := Apart

theorem aparts_closed (p : Nat) : ReactionsClosed (aparts p) where
  refl := .refl
  trans := .trans
  pre_of_post hapart hpre := ⟨hapart.passive hpre.1, hapart.subscribed hpre.2⟩
  calls_of_post hapart havoids := hapart.avoids havoids
  writes_of_post hapart hnone := (hapart.captures_eq _).trans hnone
  hears_of_post _ hhost := hhost
  calls_of_waits hpre hc := hpre.1.avoids hc
  hears_of_mem _ hnone hl := Bool.eq_false_iff.2 (List.filter_eq_nil_iff.1 hnone _ hl)
  note := .note
  script := .useUp
  unhook := .unhook
  collect hpre := .collect hpre.1
  text := .text
  capture hhost _ := nomatch hhost

/-- A call that keeps away is an edit, or makes a peer go. -/
theorem aparts_perform (p : Nat) (write : Writer) (hwrite : (aparts p).Writes write) :
    (aparts p).Calls (perform write) := by
  intro c w outcome w' hpre havoids h
  cases c with
  | edit d e =>
      obtain ⟨⟨result, w₁⟩, hwritten, h⟩ := bind_eq_ok_iff.1 h
      cases h
      have hne : (w.phase p).document ≠ some d := fun hd => havoids.document d hd rfl
      exact hwrite hpre (captures_eq_nil_of_ne hpre.2 hpre.1 hne) hwritten
  | disconnect peer =>
      cases h
      exact Apart.disconnect w peer
  | start | accept | decline | stop | pump | handleNext | handleMessage | handleDisconnect
  | serve => cases havoids.party

/-- However deep reactions are nested, calls that keep away do nothing to the session. -/
theorem aparts_nestedCaller (p depth : Nat) : (aparts p).Calls (nestedCaller depth) :=
  (aparts_closed p).nestedCaller (aparts_perform p) depth

/-- A write to a document that nobody captures. -/
theorem Apart.write (hw : w.Passive p) (hsubscribed : Subscribed w)
    (hnone : captures (w.document d) = []) {result : Except DocumentError Unit}
    (h : World.write depth d e w = .ok (result, w')) : Apart w w' :=
  (aparts_closed p).write (aparts_perform p) depth ⟨hw, hsubscribed⟩ hnone h

/-- Of all the listeners one captures, and that one is called once. -/
theorem exists_capture_of_notify (hcaller : (aparts p).Calls caller)
    {listeners : List (Nat × Subscriber)} {id : Nat} (hw : w.Passive p)
    (hsubscribed : Subscribed w)
    (hone : listeners.filter (fun l => l.2.isCapture) = [(id, .capture p epoch)])
    (h : Document.notify (World.notifyOne caller) e listeners w = .ok w') :
    ∃ w₁ w₂, Apart w w₁ ∧ w₁.capture p epoch e = .ok w₂ ∧ Apart w₂ w' := by
  induction listeners generalizing w with
  | nil => cases hone
  | cons l rest ih =>
      obtain ⟨w₁, hcall, hrest⟩ := bind_eq_ok_iff.1 h
      obtain ⟨id', subscriber⟩ := l
      cases subscriber with
      | host i =>
          have hhost : (aparts p).hears w (.host i) := rfl
          have hcall : Apart w w₁ :=
            (aparts_closed p).notifyOne hcaller ⟨hw, hsubscribed⟩ hhost hcall
          obtain ⟨w₂, w₃, hbefore, hcapture, hafter⟩ := ih (hcall.passive hw)
            (hcall.subscribed hsubscribed) hone hrest
          exact ⟨w₂, w₃, hcall.trans hbefore, hcapture, hafter⟩
      | capture q epoch' =>
          obtain ⟨hl, hrest'⟩ := List.cons.inj hone
          cases hl
          have hpre : (aparts p).pre w₁ :=
            ⟨hw.capture hcall, hsubscribed.worldSteps (worldSteps_capture hcall)⟩
          exact ⟨w, w₁, .refl w, hcall, (aparts_closed p).notify hcaller hpre
            (fun l hl => Bool.eq_false_iff.2 (List.filter_eq_nil_iff.1 hrest' l hl)) hrest⟩

/-- A write is refused, or puts the edit in and calls the listeners. -/
theorem exists_apart_of_write (hw : w.Passive p) (hsubscribed : Subscribed w)
    {result : Except DocumentError Unit} (h : World.write depth d e w = .ok (result, w')) :
    ∃ v, Apart w v ∧ ((∃ reason, result = .error reason) ∧ w' = v ∨
      result = .ok () ∧ Document.notify (World.notifyOne (nestedCaller depth)) e
        (v.document d).listeners v = .ok w') := by
  rw [write_eq] at h
  obtain ⟨v, hhooks, hresult⟩ := exists_hookRun_of_writeVia h
  have hv : Apart w v :=
    (aparts_closed p).hookRun (aparts_nestedCaller p depth) ⟨hw, hsubscribed⟩ hhooks
  obtain hrefused | ⟨hok, text, hnotify⟩ := hresult
  · exact ⟨v, hv, .inl hrefused⟩
  · refine ⟨_, hv.trans (.text v d text), .inr ⟨hok, ?_⟩⟩
    rw [(Apart.text v d text).listeners]
    exact hnotify

/-- A write that is refused. -/
theorem Apart.write_error (hw : w.Passive p) (hsubscribed : Subscribed w)
    {reason : DocumentError} (h : World.write depth d e w = .ok (.error reason, w')) :
    Apart w w' := by
  obtain ⟨v, hv, ⟨-, rfl⟩ | ⟨hresult, -⟩⟩ := exists_apart_of_write hw hsubscribed h
  · exact hv
  · cases hresult

/-- A write to a document that one listener captures. -/
theorem exists_capture_of_write (hw : w.Passive p) (hsubscribed : Subscribed w) {id : Nat}
    (hone : captures (w.document d) = [(id, .capture p epoch)])
    (h : World.write depth d e w = .ok (.ok (), w')) :
    ∃ w₁ w₂, Apart w w₁ ∧ w₁.capture p epoch e = .ok w₂ ∧ Apart w₂ w' := by
  obtain ⟨v, hv, ⟨⟨reason, hresult⟩, -⟩ | ⟨-, hnotify⟩⟩ :=
    exists_apart_of_write hw hsubscribed h
  · cases hresult
  · rw [← hv.captures_eq] at hone
    obtain ⟨w₁, w₂, hbefore, hcapture, hafter⟩ := exists_capture_of_notify
      (aparts_nestedCaller p depth) (hv.passive hw) (hv.subscribed hsubscribed) hone hnotify
    exact ⟨w₁, w₂, hv.trans hbefore, hcapture, hafter⟩

end PairEdit.Session
