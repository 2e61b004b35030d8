import Mathlib.Logic.Relation
import PairEdit.Proofs.Interludes

/-!
# What calls are made of

`WorldStep` and `CallEffect` say what a call may change and leave open what it puts there.  A
`CallStep` is one function of a party or of a document, applied once, together with what it has
looked at.  Every call is a chain of such steps, however deep its reactions are nested, so what
each of them keeps every call keeps.
-/

namespace PairEdit.Session

open World

/-- One thing that is done in a call. -/
inductive CallStep : World → World → Prop where
  | note (w : World) (scripts : Table (List (List Call))) (underway : List Call)
      (log : List Outcome) :
      CallStep w { w with scripts := scripts, underway := underway, log := log }
  | text (w : World) (d : Nat) (t : Text) :
      CallStep w (w.setDocument d { w.document d with text := t })
  | unhook (w : World) (d : Nat) : CallStep w (w.setHook d none)
  | collect (w : World) : CallStep w w.collect
  | disconnect (w : World) (peer : PeerId) :
      CallStep w { w with network := w.network.disconnect peer }
  | receive (w : World) (p : Nat) : CallStep w (w.receive p).2
  | lock (w : World) (p : Nat) (writing : Bool) : CallStep w (w.setWriting p writing)
  | emit (w : World) (p : Nat) (event : Event) : CallStep w (w.emit p event)
  | start (w : World) (p : Nat) (our : PeerId) (name : Option Text) (other : PeerId)
      (fileName : Text) (d : Nat) : CallStep w (w.start p our name other fileName d).2
  | stop (w : World) (p : Nat) : CallStep w (w.stop p).2
  | decline (w : World) (p : Nat) : CallStep w (w.decline p).2
  | endSession (w : World) (p epoch : Nat) (reason : EndReason) :
      CallStep w (w.endSession p epoch reason)
  | endOffer (w : World) (p : Nat) (initiator : PeerId) (reason : EndReason) :
      CallStep w (w.endOffer p initiator reason)
  | enter {w w' : World} {p d epoch : Nat} (o : Offered) (hoffered : w.phase p = .offered o)
      (h : w.enter p d o = .ok (epoch, w')) : CallStep w w'
  | resume (w : World) (p epoch : Nat) : CallStep w (w.resume p epoch)
  | handleStart (w : World) (p : Nat) (sender : PeerId) (offer : Start) :
      CallStep w (w.handleStart p sender offer).2
  | handleStop (w : World) (p : Nat) (sender : PeerId) : CallStep w (w.handleStop p sender)
  | handleDisconnect (w : World) (p : Nat) (peer : PeerId) : CallStep w (w.handleDisconnect p peer)
  | stay (w : World) (p : Nat) : CallStep w (w.setPhase p (w.phase p))
  | absorb {w : World} {p : Nat} (o : Offered) (text : Text) (n : Nat)
      (hoffered : w.phase p = .offered o) :
      CallStep w (w.setPhase p (.offered { o with buffer := text, buffered := n }))
  | refuse {w : World} {p len : Nat} {u : Update} {reason : EditError} (l : Live) (s : Strategy)
      (hlive : w.phase p = .live l)
      (hadmitted : l.admit? u len = some (.error reason, { l with strategy := s })) :
      CallStep w (w.setPhase p (.live { l with strategy := s }))
  | suspend {w : World} {p len : Nat} {u : Update} {e : Edit} (l : Live) (s : Strategy)
      (hlive : w.phase p = .live l)
      (hadmitted : l.admit? u len = some (.ok e, { l with strategy := s })) :
      CallStep w (w.suspend p l s)
  | capture {w w' : World} {p epoch : Nat} {e : Edit} (h : w.capture p epoch e = .ok w') :
      CallStep w w'

/-- What comes of things that are done one after another. -/
abbrev CallSteps : World → World → Prop := Relation.ReflTransGen CallStep

variable {w w' : World} {p q d : Nat}

/-! ## What they keep -/

namespace CallStep

/-- Everything is done by world steps, but that a party locks. -/
theorem worldSteps_or_lock (h : CallStep w w') :
    WorldSteps w w' ∨ ∃ p writing, w' = w.setWriting p writing := by
  cases h with
  | note scripts underway log => exact .inl (.single (.note w scripts underway log))
  | text d t => exact .inl (.single (.text w d t))
  | unhook d => exact .inl (.single (.unhook w d))
  | collect => exact .inl (worldSteps_collect w)
  | disconnect peer => exact .inl (.single (.disconnect w peer))
  | receive p => exact .inl (.single (.receive w p))
  | lock p writing => exact .inr ⟨p, writing, rfl⟩
  | emit p event => exact .inl (.single (.emit w p event))
  | start => exact .inl (worldSteps_start ..)
  | stop p => exact .inl (worldSteps_stop w p)
  | decline p => exact .inl (worldSteps_decline w p)
  | endSession => exact .inl (worldSteps_endSession ..)
  | endOffer => exact .inl (worldSteps_endOffer ..)
  | enter o hoffered henter =>
      obtain ⟨s, -, -, rfl⟩ := exists_join_of_enter henter
      exact .inl (.single (.join w _ _ o s hoffered))
  | resume p epoch => exact .inl (.single (.resume w p epoch))
  | handleStart => exact .inl (worldSteps_handleStart ..)
  | handleStop => exact .inl (worldSteps_handleStop ..)
  | handleDisconnect => exact .inl (worldSteps_handleDisconnect ..)
  | stay p => exact .inl (.single (.stay w p))
  | absorb o text n hoffered => exact .inl (.single (.absorb w _ o text n hoffered))
  | refuse l s hlive => exact .inl (.single (.retune w _ l s hlive))
  | suspend l s hlive => exact .inl (.single (.suspend w _ l s hlive))
  | capture hcapture => exact .inl (worldSteps_capture hcapture)

theorem identity_eq (h : CallStep w w') (q : Nat) : w'.identity q = w.identity q := by
  obtain hsteps | ⟨p, writing, rfl⟩ := h.worldSteps_or_lock
  · exact hsteps.identity_eq q
  · exact (Silent.setWriting w p writing).identity_eq q

theorem limits_eq (h : CallStep w w') (q : Nat) : w'.limits q = w.limits q := by
  obtain hsteps | ⟨p, writing, rfl⟩ := h.worldSteps_or_lock
  · exact hsteps.limits_eq q
  · exact congrArg Config.limits ((Silent.setWriting w p writing).config q)

theorem assigns (h : CallStep w w') {epoch : Nat} {participants : Participants}
    (hw : w.Assigns p epoch participants) : w'.Assigns p epoch participants := by
  obtain hsteps | ⟨q, writing, rfl⟩ := h.worldSteps_or_lock
  · exact hw.worldSteps hsteps
  · exact hw.setWriting q writing

end CallStep

/-! ### Events -/

theorem WorldStep.events_prefix (h : WorldStep w w') (q : Nat) :
    (w.party q).events <+: (w'.party q).events := by
  have hsame : ∀ {v : World}, (v.party q).events = (w.party q).events →
      (w.party q).events <+: (v.party q).events := fun heq => heq ▸ List.prefix_refl _
  have hphase : ∀ (v : World) p phase,
      ((v.setPhase p phase).party q).events = (v.party q).events := fun _ p phase =>
    apply_party_modifyParty (π := Party.events) (f := fun party => { party with phase := phase })
      (fun _ => rfl) p q
  have hepoch : ∀ p, ((w.nextEpoch p).2.party q).events = (w.party q).events := fun p =>
    apply_party_modifyParty (π := Party.events)
      (f := fun party => { party with epochs := (w.party p).epochs + 1 }) (fun _ => rfl) p q
  cases h with
  | text | unhook | note | disconnect | release | receive => exact List.prefix_refl _
  | emit p event =>
      by_cases hq : q = p
      · subst hq
        rw [events_emit_self]
        exact List.prefix_append ..
      · exact hsame (congrArg Party.events (party_emit_of_ne w event hq))
  | send p peer m => exact hsame (congrArg Party.events (party_send w p peer m q))
  | vacate p => exact hsame ((congrArg Party.events (party_detach ..)).trans (hphase w p _))
  | stay | offer | absorb | retune => exact hsame (hphase w _ _)
  | suspend p l s => exact hsame ((congrArg Party.events (party_detach ..)).trans (hphase w p _))
  | resume p epoch => exact hsame ((Silent.resume w p epoch).events q)
  | initiate p d participants s =>
      exact hsame ((hphase ((w.nextEpoch p).2.attach p _ d).2 p _).trans (hepoch p))
  | join p d o s => exact hsame ((hphase _ p _).trans (hepoch p))

/-- What a host was told it has been told ever after. -/
theorem CallStep.events_prefix (h : CallStep w w') (q : Nat) :
    (w.party q).events <+: (w'.party q).events := by
  have hlock : ∀ (v : World) p writing,
      ((v.setWriting p writing).party q).events = (v.party q).events :=
    fun v p writing => (Silent.setWriting v p writing).events q
  obtain hsteps | ⟨p, writing, rfl⟩ := h.worldSteps_or_lock
  · exact hsteps.invariant (P := fun v => (w.party q).events <+: (v.party q).events)
      (fun hstep hv => hv.trans (hstep.events_prefix q))
      (fun p writing hv => by rwa [hlock]) (List.prefix_refl _)
  · exact (hlock w p writing).symm ▸ List.prefix_refl _

/-! ## Calls that write -/

namespace CallSteps

variable {write : Writer}

theorem accept (hwrite : WriterKeeps CallSteps write) {result : Except ShareError Unit}
    (h : w.accept write p d = .ok (result, w')) : CallSteps w w' := by
  have hentered : ∀ {o epoch u}, w.phase p = .offered o →
      (w.setWriting p true).enter p d o = .ok (epoch, u) → CallSteps w u := by
    intro o epoch u hoffered henter
    exact .tail (.single (.lock w p true))
      (.enter o ((phase_setWriting ..).trans hoffered) henter)
  cases (AcceptRun.of_accept h).2 with
  | none => exact .refl
  | refused o hoffered henter hwritten =>
      have hwrote := (hentered hoffered henter).trans (hwrite hwritten)
      exact .tail (.tail (.tail hwrote (.resume ..)) (.endSession ..)) (.lock ..)
  | accepted o hoffered henter hwritten =>
      have hwrote := (hentered hoffered henter).trans (hwrite hwritten)
      exact .tail (.tail (.tail hwrote (.resume ..)) (.emit ..)) (.lock ..)

theorem handleUpdate (hwrite : WriterKeeps CallSteps write) {sender : PeerId} {u : Update}
    {result : Except ShareError Unit} (h : w.handleUpdate write p sender u = .ok (result, w')) :
    CallSteps w w' := by
  cases (UpdateRun.of_handleUpdate h).2 with
  | ignored | outsider => exact .single (.stay w p)
  | buffered o text n hoffered => exact .single (.absorb o text n hoffered)
  | endOffer o text n reason hoffered =>
      exact .tail (.single (.absorb o text n hoffered)) (.endOffer ..)
  | endSession l s reason hlive _ hadmitted =>
      exact .tail (.single (.refuse l s hlive hadmitted)) (.endSession ..)
  | refused l s e hlive _ hadmitted hwritten =>
      have hsuspended : CallSteps w ((w.suspend p l s).setWriting p true) :=
        .tail (.single (.suspend l s hlive hadmitted)) (.lock ..)
      have hwrote := hsuspended.trans (hwrite hwritten)
      exact .tail (.tail (.tail hwrote (.resume ..)) (.endSession ..)) (.lock ..)
  | @written l s e v hlive _ hadmitted hwritten =>
      have hsuspended : CallSteps w ((w.suspend p l s).setWriting p true) :=
        .tail (.single (.suspend l s hlive hadmitted)) (.lock ..)
      have hresumed : CallSteps w (v.resume p l.epoch) :=
        .tail (hsuspended.trans (hwrite hwritten)) (.resume ..)
      split
      · exact .tail hresumed (.lock ..)
      · exact .tail (.tail hresumed (.emit ..)) (.lock ..)

theorem handleMessage (hwrite : WriterKeeps CallSteps write) {sender : PeerId} {payload : Bytes}
    {result : Except ShareError Unit}
    (h : w.handleMessage write p sender payload = .ok (result, w')) : CallSteps w w' := by
  cases MessageRun.of_handleMessage h with
  | unreadable => exact .refl
  | start => exact .single (.handleStart ..)
  | update _ hupdate => exact handleUpdate hwrite hupdate
  | stop => exact .single (.handleStop ..)

theorem callsClosed (hwrite : WriterKeeps CallSteps write) :
    CallsClosed write (fun _ => True) (fun _ => True) CallSteps where
  trans := .trans
  pre_of_post _ hpre := hpre
  edit _ h := hwrite h
  disconnect w peer := .single (.disconnect w peer)
  receive w p := .single (.receive w p)
  start _ _ _ _ _ _ := .single (.start ..)
  accept _ _ h := accept hwrite h
  decline _ := .single (.decline ..)
  stop _ := .single (.stop ..)
  handleMessage _ _ h := handleMessage hwrite h
  handleDisconnect _ _ := .single (.handleDisconnect ..)

theorem of_perform (write : Writer) (hwrite : WriterKeeps CallSteps write) :
    CallerKeeps CallSteps (World.perform write) :=
  fun _ _ _ _ h => (callsClosed hwrite).perform trivial (fun _ _ => trivial) h

theorem reactionsKeep : ReactionsKeep CallSteps where
  refl _ := .refl
  trans := .trans
  note w scripts underway log := .single (.note w scripts underway log)
  unhook w d := .single (.unhook w d)
  collect w := .single (.collect w)
  text w d text := .single (.text w d text)
  capture h := .single (.capture h)

/-- A write is a chain of call steps, however deep reactions are nested. -/
theorem of_write (depth : Nat) : WriterKeeps CallSteps (World.write depth) :=
  reactionsKeep.write of_perform depth

theorem runAll {calls : List Call} (h : w.runAll calls = .ok w') : CallSteps w w' := by
  induction calls generalizing w with
  | nil =>
      cases h
      exact .refl
  | cons c rest ih =>
      obtain ⟨⟨outcome, v⟩, hcall, h⟩ := bind_eq_ok_iff.1 h
      exact (of_perform _ (of_write w.pendingReactions) hcall).trans (ih h)

end CallSteps

/-- To accept an offer is to begin the session and to write the text; after that the session is
ended, or the host is told that it began. -/
theorem exists_enter_of_accept {depth : Nat} {o : Offered} (hoffered : w.phase p = .offered o)
    {result : Except ShareError Unit} (h : w.accept (World.write depth) p d = .ok (result, w')) :
    ∃ epoch v u, (w.setWriting p true).enter p d o = .ok (epoch, v) ∧ CallSteps v u ∧
      ((∃ reason, result = .error reason) ∧
          w' = (u.endSession p epoch .invalidOperation).setWriting p false ∨
        result = .ok () ∧
          w' = (u.emit p (.started o.participants.initiator .receiver)).setWriting p false) := by
  have hsame : ∀ {o'}, w.phase p = .offered o' → o' = o := fun hoffered' =>
    Phase.offered.inj (hoffered'.symm.trans hoffered)
  cases (AcceptRun.of_accept h).2 with
  | none hnone => exact absurd hoffered (hnone o)
  | refused o' hoffered' henter hwritten =>
      obtain rfl := hsame hoffered'
      exact ⟨_, _, _, henter, .tail (CallSteps.of_write depth hwritten) (.resume ..),
        .inl ⟨⟨_, rfl⟩, rfl⟩⟩
  | accepted o' hoffered' henter hwritten =>
      obtain rfl := hsame hoffered'
      exact ⟨_, _, _, henter, .tail (CallSteps.of_write depth hwritten) (.resume ..), .inr
        ⟨rfl, rfl⟩⟩

end PairEdit.Session
