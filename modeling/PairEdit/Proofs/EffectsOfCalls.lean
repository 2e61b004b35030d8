import PairEdit.Proofs.CallEffects

/-!
# The effects of calls

Whoever makes a call, the parties that act in it are the one that is called and those that hooks
and listeners call.  This module goes through the calls and says so of each of them, and of the
writes that they lead to, however deep the reactions are nested.
-/

namespace PairEdit.Session

open World

/-- Only live sessions capture, and the calls that wait are to these parties. -/
structure Ready (reactive : Nat → Prop) (w : World) : Prop where
  subscribed : Subscribed w
  waits : ∀ c, w.Waits c → ∀ q, c.party? = some q → reactive q

variable {reactive called : Nat → Prop} {w w' : World} {p d : Nat}

theorem Ready.callEffect (h : Ready reactive w) (heffect : CallEffect reactive called w w') :
    Ready reactive w' :=
  ⟨h.subscribed.worldSteps heffect.worldSteps, fun c hc => h.waits c (heffect.waits hc)⟩

theorem Ready.opening {l : Live} {news : Option Event} (h : Ready reactive w)
    (hopening : Opening p w l news w') : Ready reactive w' := by
  refine ⟨?_, fun c hc => h.waits c (hopening.silent.waits hc)⟩
  cases hopening with
  | update l s hlive =>
      exact (h.subscribed.suspend hlive).modifyParty (fun _ => rfl) (Nat.le_refl _)
  | accept o d s hoffered =>
      have hwriting : Subscribed (w.setWriting p true) :=
        h.subscribed.modifyParty (fun _ => rfl) (Nat.le_refl _)
      exact hwriting.join s ((phase_setWriting ..).trans hoffered)

namespace CallEffect

/-! ## What is done to no party -/

theorem send (w : World) (p : Nat) (peer : PeerId) (m : Message) :
    CallEffect reactive called w (w.send p peer m).2 :=
  .aside (.send w p peer m) (party_send w p peer m) fun _ => waits_send

theorem receive (w : World) (p : Nat) : CallEffect reactive called w (w.receive p).2 :=
  .aside (.receive w p) (fun _ => rfl) fun _ hc => hc

theorem stay (w : World) (p : Nat) : CallEffect reactive called w (w.setPhase p (w.phase p)) := by
  refine .aside (.stay w p) (fun q => ?_) fun _ hc => hc
  by_cases hq : q = p
  · subst hq
    rw [World.setPhase, party_modifyParty_self]
    rfl
  · exact party_setPhase_of_ne w _ hq

theorem note (w : World) (underway : List Call) (log : List Outcome) :
    CallEffect reactive called w { w with underway := underway, log := log } :=
  .aside (.note w w.scripts underway log) (fun _ => rfl) fun _ hc => hc

theorem setText (w : World) (d : Nat) (t : Text) :
    CallEffect reactive called w (w.setDocument d { w.document d with text := t }) :=
  .aside (.text w d t) (fun _ => rfl)
    fun _ hc => hc.of_le (fun e => .inl (hook_setDocument w d e _)) fun _ _ hnow => hnow

/-- A listener of the host uses up what it does in the next call. -/
theorem useUp (w : World) {i : Nat} {now : List Call} {later : List (List Call)}
    (hscript : w.scripts.get i = now :: later) :
    CallEffect reactive called w { w with scripts := w.scripts.set i later } := by
  refine .aside (.note w _ w.underway w.log) (fun _ => rfl) fun _ hc =>
    hc.of_le (fun _ => .inl rfl) fun j round hround => ?_
  by_cases hj : j = i
  · subst hj
    rw [Table.get_set_self] at hround
    rw [hscript]
    exact List.mem_cons_of_mem _ hround
  · rwa [Table.get_set_of_ne _ _ hj] at hround

/-! ## Calls that write nothing -/

/-- Ending a session or an offer. -/
theorem of_endRun (hp : called p) (h : EndRun p w w') : CallEffect reactive called w w' := by
  cases h with
  | none => exact .refl ..
  | left peer reason hother => exact .move hp (.depart peer reason hother)
  | told peer reason hother => exact .trans (.move hp (.depart peer reason hother)) (send ..)

theorem start (w : World) (hp : called p) (our : PeerId) (name : Option Text) (other : PeerId)
    (fileName : Text) (d : Nat) :
    CallEffect reactive called w (w.start p our name other fileName d).2 := by
  obtain ⟨reason, hstart⟩ | ⟨-, -, hidle, s, -, hstart⟩ := w.start_cases p our name other fileName d
  · rw [hstart]
    exact .refl ..
  · obtain ⟨reason, hstart⟩ | ⟨m, hstart⟩ := hstart
    · rw [hstart]
      exact .move hp (.lapse d _ s hidle)
    · have hbegin := Move.begin d ⟨our, our, other⟩ s m hidle
      have hother : Participants.other ⟨our, our, other⟩ = other := by
        simp [Participants.other, Participants.role]
      rw [hother] at hbegin
      rw [hstart]
      exact .move hp hbegin

theorem handleStart (w : World) (hp : called p) (sender : PeerId) (offer : Start) :
    CallEffect reactive called w (w.handleStart p sender offer).2 := by
  obtain ⟨-, reason, heq⟩ | ⟨-, -, ⟨hidle, heq⟩ | ⟨hbusy, heq⟩⟩ :=
    w.handleStart_cases p sender offer
  · rw [heq]
    exact .refl ..
  · rw [heq]
    exact .move hp (.offer _ hidle (Offered.other_ofStart offer))
  · rw [heq]
    exact .trans (.move hp (.refuse sender hbusy)) (send ..)

/-- What a session sends of an edit, when it does not pause. -/
theorem capture {epoch : Nat} {e : Edit} (hkept : w.PausesOnly p (· ≠ epoch))
    (h : w.capture p epoch e = .ok w') : CallEffect reactive called w w' := by
  have hsent : ∀ (l : Live) (u : Update) (s : Strategy), w.phase p = .live l → l.capture ≠ none →
      CallEffect reactive called w ((w.setPhase p (.live { l with strategy := s })).send p
        l.participants.other (.update u)).2 :=
    fun l u s hlive hcapture => .trans (.captured called l s hlive hcapture) (send ..)
  cases CaptureRun.of_capture h with
  | skipped => exact .refl ..
  | sent l u s hlive hepoch _ _ hsend =>
      have heffect := hsent l u s hlive fun hnone => hkept l hlive hnone hepoch
      rwa [hsend] at heffect
  | @unsent l u s reason v hlive hepoch _ _ hsend =>
      have hcapture : l.capture ≠ none := fun hnone => hkept l hlive hnone hepoch
      have heffect := hsent l u s hlive hcapture
      rw [hsend] at heffect
      have hphase : v.phase p = .live { l with strategy := s } := by
        have hsame := phase_send (w.setPhase p (.live { l with strategy := s })) p
          l.participants.other (.update u) p
        rwa [hsend, phase_setPhase_self] at hsame
      exact .trans heffect (.unsent called { l with strategy := s } reason hphase hcapture)

end CallEffect

/-! ## Calls that write -/

/-- In reaction to edits only the parties in `reactive` are called.  Those that capture an edit
do so for sessions that do not pause. -/
def callEffects (reactive : Nat → Prop) : Contract where
  pre := Ready reactive
  calls _ c := ∀ q, c.party? = some q → reactive q
  writes _ _ := True
  hears w s := ∀ q epoch, s = .capture q epoch → w.PausesOnly q (· ≠ epoch)
  post := CallEffect reactive reactive

namespace CallEffect

variable {write : Writer}

theorem accept (hwrite : (callEffects reactive).Writes write) (hready : Ready reactive w)
    (hp : called p) {result : Except ShareError Unit}
    (h : w.accept write p d = .ok (result, w')) : CallEffect reactive called w w' := by
  obtain ⟨hfree, hrun⟩ := AcceptRun.of_accept h
  cases hrun with
  | none => exact .refl ..
  | refused o hoffered henter hwritten =>
      obtain ⟨s, -, rfl, rfl⟩ := exists_join_of_enter henter
      have hopening := Opening.accept (p := p) (w := w) o d s hoffered
      exact .write hp hfree hopening (hwrite (hready.opening hopening) trivial hwritten) .ended
  | accepted o hoffered henter hwritten =>
      obtain ⟨s, -, rfl, rfl⟩ := exists_join_of_enter henter
      have hopening := Opening.accept (p := p) (w := w) o d s hoffered
      exact .write hp hfree hopening (hwrite (hready.opening hopening) trivial hwritten) .told

theorem handleUpdate (hwrite : (callEffects reactive).Writes write) (hready : Ready reactive w)
    (hp : called p) {sender : PeerId} {u : Update} {result : Except ShareError Unit}
    (h : w.handleUpdate write p sender u = .ok (result, w')) : CallEffect reactive called w w' := by
  obtain ⟨hfree, hrun⟩ := UpdateRun.of_handleUpdate h
  cases hrun with
  | ignored | outsider => exact stay w p
  | buffered o text n hoffered => exact .move hp (.absorb o text n hoffered)
  | endOffer o text n reason hoffered =>
      exact .trans (.move hp (.absorb o text n hoffered)) (of_endRun hp (.endOffer ..))
  | endSession l s reason hlive =>
      exact .trans (.move hp (.retune l s hlive hfree)) (of_endRun hp (.endSession ..))
  | refused l s e hlive _ _ hwritten =>
      have hopening := Opening.update (p := p) (w := w) l s hlive
      exact .write hp hfree hopening (hwrite (hready.opening hopening) trivial hwritten) .ended
  | written l s e hlive hother _ hwritten =>
      have hopening := Opening.update (p := p) (w := w) l s hlive
      have htold := CallEffect.write hp hfree hopening
        (hwrite (hready.opening hopening) trivial hwritten) .told
      rw [hother] at htold
      cases hfirst : l.confirmed with
      | false => simpa [hfirst, World.tell] using htold
      | true => simpa [hfirst, World.tell] using htold

theorem handleMessage (hwrite : (callEffects reactive).Writes write) (hready : Ready reactive w)
    (hp : called p) {sender : PeerId} {payload : Bytes} {result : Except ShareError Unit}
    (h : w.handleMessage write p sender payload = .ok (result, w')) :
    CallEffect reactive called w w' := by
  cases MessageRun.of_handleMessage h with
  | unreadable => exact .refl ..
  | start => exact handleStart w hp sender _
  | update _ hupdate => exact handleUpdate hwrite hready hp hupdate
  | stop => exact of_endRun hp (.handleStop w p sender)

theorem callsClosed (hwrite : (callEffects reactive).Writes write)
    (hreactive : ∀ q, reactive q → called q) :
    CallsClosed write (Ready reactive) called (CallEffect reactive called) where
  trans := .trans
  pre_of_post heffect hready := hready.callEffect heffect
  edit hready h := (hwrite hready trivial h).mono hreactive
  disconnect w peer := .aside (.disconnect w peer) (fun _ => rfl) fun _ hc => hc
  receive := receive
  start hp := start _ hp
  accept hready hp h := accept hwrite hready hp h
  decline hp := of_endRun hp (.decline ..)
  stop hp := of_endRun hp (.stop ..)
  handleMessage hready hp h := handleMessage hwrite hready hp h
  handleDisconnect hp _ := of_endRun hp (.handleDisconnect ..)

/-- Every call has such an effect when writes have. -/
theorem perform (hwrite : (callEffects reactive).Writes write) (hready : Ready reactive w)
    {c : Call}
    (hcalled : ∀ q, c.party? = some q → called q) (hreactive : ∀ q, reactive q → called q)
    {outcome : Outcome} (h : World.perform write c w = .ok (outcome, w')) :
    CallEffect reactive called w w' :=
  (callsClosed hwrite hreactive).perform hready hcalled h

end CallEffect

theorem callEffects_perform (reactive : Nat → Prop) (write : Writer)
    (hwrite : (callEffects reactive).Writes write) :
    (callEffects reactive).Calls (World.perform write) :=
  fun _ _ _ _ hready hcalled h => CallEffect.perform hwrite hready hcalled (fun _ hq => hq) h

/-! ## Reactions -/

theorem callEffects_closed (reactive : Nat → Prop) : ReactionsClosed (callEffects reactive) where
  refl := .refl _
  trans := .trans
  pre_of_post heffect hready := hready.callEffect heffect
  calls_of_post _ hcalls := hcalls
  writes_of_post _ _ := trivial
  hears_of_post heffect hhears q epoch heq := heffect.pausesOnly (hhears q epoch heq)
  calls_of_waits hready hc := hready.waits _ hc
  hears_of_mem {w d l} hready _ hl q epoch heq := by
    obtain ⟨id, subscriber⟩ := l
    obtain rfl := heq
    obtain ⟨l, hlive, -, hcapture, -⟩ := hready.subscribed.capturesWith d id q epoch hl
    exact .of_capture_ne hlive (by rw [hcapture]; nofun)
  note := CallEffect.note
  script := CallEffect.useUp _
  unhook w d := .aside (.unhook w d) (fun _ => rfl) fun _ => (Silent.unhook w d).waits
  collect _ := .collect ..
  text := CallEffect.setText
  capture hhears h := CallEffect.capture (hhears _ _ rfl) h

theorem callEffects_write (reactive : Nat → Prop) (depth : Nat) :
    (callEffects reactive).Writes (World.write depth) :=
  (callEffects_closed reactive).write (callEffects_perform reactive) depth

/-- A write has such an effect, however deep reactions are nested. -/
theorem CallEffect.of_write (hready : Ready reactive w) {depth : Nat} {e : Edit}
    {result : Except DocumentError Unit} (h : World.write depth d e w = .ok (result, w')) :
    CallEffect reactive reactive w w' :=
  callEffects_write reactive depth hready trivial h

theorem callEffects_nestedCaller (reactive : Nat → Prop) (depth : Nat) :
    (callEffects reactive).Calls (nestedCaller depth) :=
  (callEffects_closed reactive).nestedCaller (callEffects_perform reactive) depth

end PairEdit.Session
