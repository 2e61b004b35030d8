import PairEdit.Proofs.Subscriptions

/-!
# What goes without a word

Much of what a party does nobody is told: it leaves a phase, takes a listener off or registers
one, and what nobody can reach any more is forgotten.  No text changes then, no event and no
message comes of it, and no document or listener gets new calls to make.
-/

namespace PairEdit.Session

open World

theorem hook_setDocument (w : World) (d e : Nat) (document : Document Subscriber) :
    ((w.setDocument d document).surfaces.get e).hook = (w.surfaces.get e).hook := by
  by_cases he : e = d
  · subst he
    simp [World.setDocument]
  · simp [World.setDocument, Table.get_modify_of_ne _ _ he]

theorem hook_detach (w : World) (phase : Phase) (d : Nat) :
    ((w.detach phase).surfaces.get d).hook = (w.surfaces.get d).hook := by
  obtain heq | ⟨l, id, -, -, heq⟩ := w.detach_cases phase
  · rw [heq]
  · rw [heq]
    exact hook_setDocument ..

/-- No text changes, no host and no peer is told anything, and nobody begins anything. -/
structure Silent (w w' : World) : Prop where
  text : ∀ d, (w'.document d).text = (w.document d).text
  hook : ∀ d, (w'.surfaces.get d).hook = (w.surfaces.get d).hook ∨
    (w'.surfaces.get d).hook = none
  scripts : w'.scripts = w.scripts
  config : ∀ q, (w'.party q).config = (w.party q).config
  events : ∀ q, (w'.party q).events = (w.party q).events
  queue : ∀ id, (w'.network.endpoint id).queue = (w.network.endpoint id).queue
  peer : ∀ id, (w'.network.endpoint id).peer = (w.network.endpoint id).peer
  endpoint : ∀ q, (w'.party q).endpoint = (w.party q).endpoint
  released : ∀ q, (w'.party q).released = (w.party q).released
  idle : ∀ q, w.phase q = .idle → w'.phase q = .idle

namespace Silent

variable {w w' w'' : World} {p : Nat}

theorem refl (w : World) : Silent w w :=
  ⟨fun _ => rfl, fun _ => .inl rfl, rfl, fun _ => rfl, fun _ => rfl, fun _ => rfl, fun _ => rfl,
    fun _ => rfl, fun _ => rfl, fun _ h => h⟩

theorem trans (h : Silent w w') (h' : Silent w' w'') : Silent w w'' where
  text d := (h'.text d).trans (h.text d)
  hook d := by
    obtain heq | hnone := h'.hook d
    · rw [heq]
      exact h.hook d
    · exact .inr hnone
  scripts := h'.scripts.trans h.scripts
  config q := (h'.config q).trans (h.config q)
  events q := (h'.events q).trans (h.events q)
  queue id := (h'.queue id).trans (h.queue id)
  peer id := (h'.peer id).trans (h.peer id)
  endpoint q := (h'.endpoint q).trans (h.endpoint q)
  released q := (h'.released q).trans (h.released q)
  idle q hq := h'.idle q (h.idle q hq)

theorem identity_eq (h : Silent w w') (q : Nat) : w'.identity q = w.identity q := by
  rw [identity, h.endpoint, h.peer, identity]

/-- A change of what is neither set up nor told. -/
theorem modifyParty (w : World) (p : Nat) {f : Party → Party}
    (hconfig : ∀ party, (f party).config = party.config)
    (hevents : ∀ party, (f party).events = party.events)
    (hendpoint : ∀ party, (f party).endpoint = party.endpoint)
    (hreleased : ∀ party, (f party).released = party.released)
    (hidle : w.phase p = .idle → (f (w.party p)).phase = .idle) : Silent w (w.modifyParty p f) where
  text _ := rfl
  hook _ := .inl rfl
  scripts := rfl
  config := apply_party_modifyParty hconfig p
  events := apply_party_modifyParty hevents p
  queue _ := rfl
  peer _ := rfl
  endpoint := apply_party_modifyParty hendpoint p
  released := apply_party_modifyParty hreleased p
  idle q hq := by
    by_cases hqp : q = p
    · subst hqp
      rw [World.phase, party_modifyParty_self]
      exact hidle hq
    · rw [World.phase, party_modifyParty_of_ne w f hqp]
      exact hq

theorem setWriting (w : World) (p : Nat) (writing : Bool) : Silent w (w.setWriting p writing) :=
  modifyParty w p (fun _ => rfl) (fun _ => rfl) (fun _ => rfl) (fun _ => rfl) fun h => h

theorem setPhase (w : World) {phase : Phase} (hidle : w.phase p = .idle → phase = .idle) :
    Silent w (w.setPhase p phase) :=
  modifyParty w p (fun _ => rfl) (fun _ => rfl) (fun _ => rfl) (fun _ => rfl) hidle

theorem detach (w : World) (phase : Phase) : Silent w (w.detach phase) where
  text := text_detach w phase
  hook d := .inl (hook_detach w phase d)
  scripts := by
    obtain heq | ⟨l, id, -, -, heq⟩ := w.detach_cases phase
    · rw [heq]
    · rw [heq]
      rfl
  config q := congrArg Party.config (party_detach w phase q)
  events q := congrArg Party.events (party_detach w phase q)
  queue id := by rw [network_detach]
  peer id := by rw [network_detach]
  endpoint q := congrArg Party.endpoint (party_detach w phase q)
  released q := congrArg Party.released (party_detach w phase q)
  idle q hq := (phase_detach w phase q).trans hq

theorem vacate (w : World) (p : Nat) : Silent w (w.vacate p) :=
  (setPhase w fun _ => rfl).trans (detach ..)

theorem suspend (w : World) {l : Live} (s : Strategy) (hlive : w.phase p = .live l) :
    Silent w (w.suspend p l s) :=
  (setPhase w fun hidle => by rw [hlive] at hidle; cases hidle).trans (detach ..)

theorem setDocument (w : World) {d : Nat} {document : Document Subscriber}
    (htext : document.text = (w.document d).text) : Silent w (w.setDocument d document) where
  text e := by
    by_cases he : e = d
    · subst he
      rw [document_setDocument_self, htext]
    · rw [document_setDocument_of_ne w document he]
  hook e := .inl (hook_setDocument w d e document)
  scripts := rfl
  config _ := rfl
  events _ := rfl
  queue _ := rfl
  peer _ := rfl
  endpoint _ := rfl
  released _ := rfl
  idle _ hq := hq

theorem resume (w : World) (p epoch : Nat) : Silent w (w.resume p epoch) := by
  obtain ⟨heq, -⟩ | ⟨l, hlive, -, -, heq⟩ := w.resume_cases p epoch
  · rw [heq]
    exact refl w
  · rw [heq]
    have hattach : Silent w (w.attach p epoch l.document).2 := setDocument w rfl
    refine hattach.trans (setPhase _ fun hidle => ?_)
    exact absurd (hlive.symm.trans hidle) nofun

theorem unhook (w : World) (d : Nat) : Silent w (w.setHook d none) where
  text e := by
    by_cases he : e = d
    · subst he
      simp [World.document, World.setHook]
    · simp [World.document, World.setHook, Table.get_modify_of_ne _ _ he]
  hook e := by
    by_cases he : e = d
    · subst he
      exact .inr (by simp [World.setHook])
    · exact .inl (by simp [World.setHook, Table.get_modify_of_ne _ _ he])
  scripts := rfl
  config _ := rfl
  events _ := rfl
  queue _ := rfl
  peer _ := rfl
  endpoint _ := rfl
  released _ := rfl
  idle _ hq := hq

theorem setUnderway (w : World) (underway : List Call) :
    Silent w { w with underway := underway } :=
  ⟨fun _ => rfl, fun _ => .inl rfl, rfl, fun _ => rfl, fun _ => rfl, fun _ => rfl, fun _ => rfl,
    fun _ => rfl, fun _ => rfl, fun _ h => h⟩

theorem fire (w : World) (d : Nat) (hook : Hook) : Silent w (w.fire d hook) :=
  (unhook w d).trans (setUnderway ..)

theorem nextEpoch (w : World) (p : Nat) : Silent w (w.nextEpoch p).2 :=
  modifyParty w p (fun _ => rfl) (fun _ => rfl) (fun _ => rfl) (fun _ => rfl) fun h => h

theorem join (w : World) (d : Nat) {o : Offered} (s : Strategy)
    (hoffered : w.phase p = .offered o) : Silent w (w.join p d o s) := by
  refine (nextEpoch w p).trans (setPhase _ fun hidle => ?_)
  rw [phase_nextEpoch, hoffered] at hidle
  cases hidle

theorem release (w : World) (id : Nat) :
    Silent w { w with network := w.network.release id } where
  text _ := rfl
  hook _ := .inl rfl
  scripts := rfl
  config _ := rfl
  events _ := rfl
  queue j := by
    by_cases hj : j = id
    · subst hj
      simp [Network.endpoint, Network.release, Network.modify]
    · simp [Network.endpoint, Network.release, Network.modify, Table.get_modify_of_ne _ _ hj]
  peer j := peer_modify w.network (fun e => { e with held := false }) (fun _ => rfl) id j
  endpoint _ := rfl
  released _ := rfl
  idle _ hq := hq

theorem collect (w : World) : Silent w w.collect :=
  ReleaseClosed.collect ⟨refl, trans, unhook, fun _ => vacate .., release⟩ w

theorem leave (w : World) (p : Nat) : Silent w (w.leave p) := by
  obtain heq | heq := w.leave_cases p
  · exact heq ▸ vacate w p
  · exact heq ▸ (vacate w p).trans (collect _)

end Silent

theorem World.phase_leave_self (w : World) (p : Nat) : (w.leave p).phase p = .idle := by
  obtain heq | heq := w.leave_cases p
  · exact heq ▸ phase_vacate_self w p
  · exact heq ▸ (Silent.collect (w.vacate p)).idle p (phase_vacate_self w p)

/-- An idle party that starts begins the session first, and then sends its offer. -/
theorem World.start_eq_of_idle {w : World} {p d : Nat} {our other : PeerId} {name : Option Text}
    {fileName : Text} (hother : our ≠ other) (hour : our = w.identity p)
    (hidle : w.phase p = .idle) :
    w.start p our name other fileName d =
      match (w.initiate p d ⟨our, our, other⟩
          (.start (w.party p).config.strategy .initiator)).send p other
          (.start ⟨our, name.getD our.short, other, (w.document d).text, fileName⟩) with
      | (.error reason, v) =>
          (.error reason, if (v.phase p).isEpoch (w.nextEpoch p).1 then v.leave p else v)
      | (.ok (), v) => (.ok (), v.emit p (.started other .initiator)) := by
  rw [start, if_neg hother, if_neg (not_not_intro hour), ← (Silent.nextEpoch w p).config p]
  simp only [hidle]
  rfl

theorem World.phase_handleDisconnect (w : World) (p : Nat) (peer : PeerId) :
    (w.handleDisconnect p peer).phase p =
      if (w.phase p).other = some peer then .idle else w.phase p := by
  unfold handleDisconnect
  split
  · dsimp only
    split
    · rw [phase_send, phase_emit, phase_leave_self]
    · rw [phase_emit, phase_leave_self]
  · rfl

end PairEdit.Session
