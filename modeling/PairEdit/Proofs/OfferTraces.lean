import PairEdit.Proofs.Acknowledgement
import PairEdit.Proofs.Joining
import PairEdit.Proofs.Roles

/-!
# An offer that waits for an answer

A party may take its time to answer an offer, and the initiator goes on editing meanwhile.  What
the initiator sends is applied to the offered text as it comes, and counted.  The trace of an
offer holds all that the party is sent while the offer waits.  Its length and its end are left
open: the party may be sent anything by anybody, and whatever else goes on, hooks and listeners
that reach back to the party included, does not change what waits.
-/

namespace PairEdit

open Edit

/-- A message that is read keeps to the limits. -/
theorem Message.check_of_decode {limits : Limits} {m : Message} {payload : Bytes}
    (h : decode limits payload = .ok m) : m.check limits = .ok () := by
  unfold decode at h
  split at h
  · cases h
  · split at h
    · cases h
    · split at h
      · cases h
      · split at h
        · cases h
        · next hcheck =>
            cases h
            exact hcheck

theorem Message.length_le_of_decode_start {limits : Limits} {offer : Start} {payload : Bytes}
    (h : decode limits payload = .ok (.start offer)) :
    offer.documentText.length ≤ limits.documentChars := by
  have hcheck := check_of_decode h
  rw [check] at hcheck
  split at hcheck
  · cases hcheck
  · next hlen => exact Nat.le_of_not_lt hlen

namespace Session

open World

/-! ## What is absorbed -/

/-- The edit that an offer takes in with a message: that of an update of the initiator. -/
def addition? (limits : Limits) (initiator : PeerId) (m : PeerId × Bytes) : Option Edit :=
  match Message.decode limits m.2 with
  | .ok (.update u) => if m.1 = initiator then some u.edit else none
  | _ => none

/-- The edits that an offer takes in, in the order in which they came.  Who had seen what does
not matter. -/
def additions (limits : Limits) (initiator : PeerId) (inbox : List (PeerId × Bytes)) : List Edit :=
  inbox.filterMap (addition? limits initiator)

/-- An offer holds the text that was offered, as the updates since then have made it, and their
number.  The text is never too long. -/
structure Offered.Holds (limits : Limits) (offer : Start) (inbox : List (PeerId × Bytes))
    (o : Offered) : Prop where
  initiator : o.participants.initiator = offer.senderId
  other : o.participants.other = offer.senderId
  buffer : applyAll (additions limits offer.senderId inbox) offer.documentText = .ok o.buffer
  buffered : o.buffered = (additions limits offer.senderId inbox).length
  buffered_le : o.buffered ≤ Word.max
  length_le : o.buffer.length ≤ limits.documentChars

/-- What a message makes of an offer that lasts. -/
inductive Offered.Takes (limits : Limits) (o : Offered) (m : PeerId × Bytes) : Offered → Prop where
  | left (hnone : addition? limits o.participants.initiator m = none) : Takes limits o m o
  | absorbed {e : Edit} {text : Text}
      (hsome : addition? limits o.participants.initiator m = some e)
      (happly : e.apply o.buffer = .ok text) (hlen : text.length ≤ limits.documentChars)
      (hcount : o.buffered + 1 ≤ Word.max) :
      Takes limits o m { o with buffer := text, buffered := o.buffered + 1 }

variable {w w' : World} {p q d : Nat} {sender : PeerId} {payload : Bytes} {limits : Limits}
variable {offer : Start} {inbox : List (PeerId × Bytes)} {o o' : Offered} {write : Writer}
variable {result : Except ShareError Unit}

theorem additions_append (front back : List (PeerId × Bytes)) (initiator : PeerId) :
    additions limits initiator (front ++ back) =
      additions limits initiator front ++ additions limits initiator back :=
  List.filterMap_append

namespace Offered

/-- An offer begins with the text that was offered and no updates. -/
theorem Holds.start (hdecode : Message.decode limits payload = .ok (.start offer))
    (hparticipants : o.participants = ⟨offer.receiverId, offer.senderId, offer.receiverId⟩)
    (hbuffer : o.buffer = offer.documentText) (hbuffered : o.buffered = 0) :
    Holds limits offer [] o where
  initiator := congrArg Participants.initiator hparticipants
  other := by
    rw [hparticipants]
    simp only [Participants.other, Participants.role]
    split
    · next hrole =>
        split at hrole
        · next heq => exact heq
        · cases hrole
    · rfl
  buffer := congrArg Except.ok hbuffer.symm
  buffered := hbuffered
  buffered_le := hbuffered ▸ Nat.zero_le _
  length_le := hbuffer ▸ Message.length_le_of_decode_start hdecode

theorem Holds.takes {m : PeerId × Bytes} (h : Holds limits offer inbox o)
    (htakes : Takes limits o m o') : Holds limits offer (inbox ++ [m]) o' := by
  cases htakes with
  | left hnone =>
      have hsame : additions limits offer.senderId (inbox ++ [m]) =
          additions limits offer.senderId inbox := by
        rw [additions_append, ← h.initiator]
        simp [additions, hnone]
      exact ⟨h.initiator, h.other, hsame ▸ h.buffer, hsame ▸ h.buffered, h.buffered_le,
        h.length_le⟩
  | @absorbed e text hsome happly hlen hcount =>
      have hmore : additions limits offer.senderId (inbox ++ [m]) =
          additions limits offer.senderId inbox ++ [e] := by
        rw [additions_append, ← h.initiator]
        simp [additions, hsome]
      refine ⟨h.initiator, h.other, ?_, ?_, hcount, hlen⟩
      · rw [hmore, applyAll_append_eq_ok_iff]
        exact ⟨o.buffer, h.buffer, (applyAll_singleton e _).trans happly⟩
      · rw [hmore, List.length_append, List.length_singleton, ← h.buffered]

end Offered

/-! ## Messages to a party without a session -/

/-- A message that leaves a party in its phase, and takes nothing in, leaves the offer. -/
theorem Offered.Takes.of_phase_eq (hoffered : w.phase p = .offered o)
    (hnone : addition? limits o.participants.initiator (sender, payload) = none)
    (hphase : w'.phase p = w.phase p) (hlasts : w'.phase p = .offered o') :
    o.Takes limits (sender, payload) o' := by
  rw [hphase, hoffered] at hlasts
  cases hlasts
  exact .left hnone

/-- An idle party has an offer after a message only when the message made it. -/
theorem exists_start_of_handleMessage (hidle : w.phase p = .idle)
    (h : w.handleMessage write p sender payload = .ok (result, w'))
    (hoffered : w'.phase p = .offered o) :
    ∃ offer, Message.decode (w.limits p) payload = .ok (.start offer) ∧ result = .ok () := by
  have hnew : w'.phase p ≠ w.phase p := by
    rw [hidle, hoffered]
    nofun
  cases MessageRun.of_handleMessage h with
  | unreadable => exact absurd rfl hnew
  | @start offer hdecode =>
      refine ⟨offer, hdecode, ?_⟩
      obtain ⟨-, reason, heq⟩ | ⟨-, -, ⟨-, heq⟩ | ⟨hbusy, -⟩⟩ :=
        w.handleStart_cases p sender offer
      · rw [heq] at hnew
        exact absurd rfl hnew
      · rw [heq]
      · exact absurd hidle hbusy
  | update _ hupdate =>
      cases (UpdateRun.of_handleUpdate hupdate).2 with
      | ignored | outsider => exact absurd (phase_setPhase_self ..) hnew
      | buffered o₁ text n hoffered₁ => cases hidle.symm.trans hoffered₁
      | endOffer o₁ text n reason hoffered₁ => cases hidle.symm.trans hoffered₁
      | endSession l s reason hlive => cases hidle.symm.trans hlive
      | refused l s e hlive => cases hidle.symm.trans hlive
      | written l s e hlive => cases hidle.symm.trans hlive
  | stop =>
      obtain heq | hidle' := (Subsides.of_endRun (.handleStop w p sender)).phase p
      · exact absurd heq hnew
      · exact absurd (hidle'.trans hidle.symm) hnew

/-! ## Traces of offers -/

/-- An offer waits: it came with a message, and these are the messages that the party has
handled since, oldest first.  Anything else may happen that leaves the party in its phase. -/
inductive OfferTrace (p : Nat) : World → Start → List (PeerId × Bytes) → Prop where
  | offered {w w' : World} {write : Writer} {sender : PeerId} {payload : Bytes} {offer : Start}
      (hidle : w.phase p = .idle)
      (hdecode : Message.decode (w.limits p) payload = .ok (.start offer))
      (hmessage : w.handleMessage write p sender payload = .ok (.ok (), w')) :
      OfferTrace p w' offer []
  | message {w w' : World} {offer : Start} {inbox : List (PeerId × Bytes)} {write : Writer}
      {sender : PeerId} {payload : Bytes} {result : Except ShareError Unit} {o : Offered}
      (h : OfferTrace p w offer inbox)
      (hmessage : w.handleMessage write p sender payload = .ok (result, w'))
      (hlasts : w'.phase p = .offered o) :
      OfferTrace p w' offer (inbox ++ [(sender, payload)])
  | meanwhile {w w' : World} {offer : Start} {inbox : List (PeerId × Bytes)}
      (h : OfferTrace p w offer inbox) (hphase : w'.phase p = w.phase p)
      (hlimits : w'.limits p = w.limits p) : OfferTrace p w' offer inbox

/-- The offer of the party, if it has one, has a trace. -/
structure World.OfferTraced (w : World) (p : Nat) : Prop where
  exists_trace : ∀ o, w.phase p = .offered o → ∃ offer inbox, OfferTrace p w offer inbox

namespace World.OfferTraced

/-- Nothing is done to an offer. -/
theorem callStep (h : w.OfferTraced p) (hcallStep : CallStep w w')
    (hsame : ∀ o, w'.phase p = .offered o → w.phase p = .offered o) : w'.OfferTraced p := by
  refine ⟨fun o hoffered => ?_⟩
  have hbefore := hsame o hoffered
  obtain ⟨offer, inbox, htrace⟩ := h.exists_trace o hbefore
  exact ⟨offer, inbox, htrace.meanwhile (hoffered.trans hbefore.symm) (hcallStep.limits_eq p)⟩

theorem subsides (h : w.OfferTraced p) (hcallStep : CallStep w w') (hphase : Subsides w w') :
    w'.OfferTraced p := by
  refine h.callStep hcallStep fun o hoffered => ?_
  obtain heq | hidle := hphase.phase p
  · exact heq.symm.trans hoffered
  · cases hoffered.symm.trans hidle

/-- One party acts, and has no offer then. -/
theorem acts (h : w.OfferTraced p) (hcallStep : CallStep w w') (hkeeps : KeepsOthers (· = q) w w')
    (hnone : ∀ o, w'.phase q ≠ .offered o) : w'.OfferTraced p := by
  refine h.callStep hcallStep fun o hoffered => ?_
  by_cases hq : p = q
  · subst hq
    exact absurd hoffered (hnone o)
  · obtain heq | hidle := hkeeps.phase_eq hq
    · exact heq.symm.trans hoffered
    · cases hoffered.symm.trans hidle

theorem note (h : w.OfferTraced p) (scripts : Table (List (List Call))) (underway : List Call)
    (log : List Outcome) :
    { w with scripts := scripts, underway := underway, log := log }.OfferTraced p :=
  h.subsides (.note w scripts underway log) (.of_phase_eq fun _ => rfl)

theorem setWriting (h : w.OfferTraced p) (q : Nat) (writing : Bool) :
    (w.setWriting q writing).OfferTraced p :=
  h.subsides (.lock w q writing) (.of_phase_eq (phase_setWriting w q writing))

theorem emit (h : w.OfferTraced p) (q : Nat) (event : Event) : (w.emit q event).OfferTraced p :=
  h.subsides (.emit w q event) (.emit w q event)

theorem endSession (h : w.OfferTraced p) (q epoch : Nat) (reason : EndReason) :
    (w.endSession q epoch reason).OfferTraced p :=
  h.subsides (.endSession ..) (.of_endRun (.endSession ..))

theorem resume (h : w.OfferTraced p) (q epoch : Nat) : (w.resume q epoch).OfferTraced p := by
  refine h.callStep (.resume w q epoch) fun o hoffered => ?_
  obtain ⟨heq, -⟩ | ⟨l, -, -, -, heq⟩ := w.resume_cases q epoch
  · rwa [heq] at hoffered
  · rw [heq] at hoffered
    by_cases hq : p = q
    · subst hq
      cases (phase_setPhase_self ..).symm.trans hoffered
    · rwa [phase_setPhase_of_ne _ _ hq] at hoffered

theorem start (h : w.OfferTraced p) (q : Nat) (our : PeerId) (name : Option Text) (other : PeerId)
    (fileName : Text) (d : Nat) : (w.start q our name other fileName d).2.OfferTraced p := by
  have hcallStep := CallStep.start w q our name other fileName d
  obtain ⟨reason, hstart⟩ | ⟨-, -, -, s, -, hstart⟩ := w.start_cases q our name other fileName d
  · rwa [hstart]
  · have hinitiate := KeepsOthers.initiate w q d ⟨our, our, other⟩ s
    obtain ⟨reason, hstart⟩ | ⟨m, hstart⟩ := hstart
    · rw [hstart] at hcallStep ⊢
      exact h.subsides hcallStep
        (.of_keepsOthers (hinitiate.trans (KeepsOthers.leave _ q)) (phase_leave_self ..))
    · rw [hstart] at hcallStep ⊢
      refine h.acts hcallStep (hinitiate.trans
        ((KeepsOthers.send ..).trans (KeepsOthers.emit _ q _))) fun o => ?_
      obtain ⟨id, hlive⟩ := w.exists_phase_initiate q d ⟨our, our, other⟩ s
      rw [phase_emit, phase_send, hlive]
      nofun

/-- An offer to a party that is not idle. -/
theorem handleStart (h : w.OfferTraced p) (sender : PeerId) (offer : Start)
    (hbusy : p = q → w.phase q ≠ .idle) : (w.handleStart q sender offer).2.OfferTraced p := by
  refine h.callStep (.handleStart w q sender offer) fun o hoffered => ?_
  obtain ⟨-, reason, heq⟩ | ⟨-, -, ⟨hidle, heq⟩ | ⟨-, heq⟩⟩ := w.handleStart_cases q sender offer
  · rwa [heq] at hoffered
  · have hq : p ≠ q := fun hq => hbusy hq hidle
    rwa [heq, phase_emit, phase_setPhase_of_ne w _ hq] at hoffered
  · rwa [heq, phase_send, phase_emit] at hoffered

theorem capture (h : w.OfferTraced p) {epoch : Nat} {e : Edit}
    (hcapture : w.capture q epoch e = .ok w') : w'.OfferTraced p := by
  have hcallStep := CallStep.capture hcapture
  have hsent : ∀ (l : Live) (u : Update) (s : Strategy), KeepsOthers (· = q) w
        ((w.setPhase q (.live { l with strategy := s })).send q l.participants.other
          (.update u)).2 ∧
      ((w.setPhase q (.live { l with strategy := s })).send q l.participants.other
        (.update u)).2.phase q = .live { l with strategy := s } :=
    fun l u s => ⟨(KeepsOthers.setPhase w q _).trans (KeepsOthers.send ..),
      (phase_send ..).trans (phase_setPhase_self ..)⟩
  cases CaptureRun.of_capture hcapture with
  | skipped => exact h
  | sent l u s _ _ _ _ hsend =>
      obtain ⟨hkeeps, hlive⟩ := hsent l u s
      rw [hsend] at hkeeps hlive
      refine h.acts hcallStep hkeeps fun o => ?_
      rw [hlive]
      nofun
  | @unsent l u s reason v _ _ _ _ hsend =>
      obtain ⟨hkeeps, hlive⟩ := hsent l u s
      rw [hsend] at hkeeps hlive
      refine h.acts hcallStep (hkeeps.trans (KeepsOthers.emit v q _)) fun o => ?_
      rw [phase_emit, hlive]
      nofun

end World.OfferTraced

/-- Whatever is done leaves every offer of the party with its trace. -/
def World.KeepsOfferTraced (p : Nat) (w w' : World) : Prop := w.OfferTraced p → w'.OfferTraced p

namespace World.OfferTraced

theorem accept (h : w.OfferTraced p) (hwrite : WriterKeeps (KeepsOfferTraced p) write)
    (hrun : w.accept write q d = .ok (result, w')) : w'.OfferTraced p := by
  have hentered : ∀ {o epoch u}, w.phase q = .offered o →
      (w.setWriting q true).enter q d o = .ok (epoch, u) → u.OfferTraced p := by
    intro o epoch u hoffered henter
    have hcallStep := CallStep.enter o ((phase_setWriting ..).trans hoffered) henter
    obtain ⟨s, -, -, rfl⟩ := exists_join_of_enter henter
    refine (h.setWriting q true).acts hcallStep (KeepsOthers.join _ q d o s) fun o' => ?_
    rw [phase_join_self]
    nofun
  cases (AcceptRun.of_accept hrun).2 with
  | none => exact h
  | refused o hoffered henter hwritten =>
      have hwrote := hwrite hwritten (hentered hoffered henter)
      exact ((hwrote.resume ..).endSession ..).setWriting q false
  | accepted o hoffered henter hwritten =>
      have hwrote := hwrite hwritten (hentered hoffered henter)
      exact ((hwrote.resume ..).emit ..).setWriting q false

/-- An update to a party that has no offer. -/
theorem handleUpdate (h : w.OfferTraced p) (hwrite : WriterKeeps (KeepsOfferTraced p) write)
    {u : Update} (hnone : p = q → ∀ o, w.phase q ≠ .offered o)
    (hrun : w.handleUpdate write q sender u = .ok (result, w')) : w'.OfferTraced p := by
  have hstay : (w.setPhase q (w.phase q)).OfferTraced p := by
    refine h.callStep (.stay w q) fun o hoffered => ?_
    by_cases hq : p = q
    · subst hq
      exact (phase_setPhase_self ..).symm.trans hoffered
    · rwa [phase_setPhase_of_ne w _ hq] at hoffered
  have habsorb : ∀ o text n, w.phase q = .offered o →
      (w.setPhase q (.offered { o with buffer := text, buffered := n })).OfferTraced p := by
    intro o text n hoffered
    have hq : p ≠ q := fun hq => hnone hq o hoffered
    refine h.callStep (.absorb o text n hoffered) fun o' hoffered' => ?_
    rwa [phase_setPhase_of_ne w _ hq] at hoffered'
  have hsuspended : ∀ {l s e}, w.phase q = .live l →
      l.admit? u (w.document l.document).length = some (.ok e, { l with strategy := s }) →
      ((w.suspend q l s).setWriting q true).OfferTraced p := by
    intro l s e hlive hadmitted
    refine setWriting (h.acts (.suspend l s hlive hadmitted) (KeepsOthers.suspend w q l s)
      fun o => ?_) q true
    rw [phase_suspend_self]
    nofun
  cases (UpdateRun.of_handleUpdate hrun).2 with
  | ignored | outsider => exact hstay
  | buffered o text n hoffered => exact habsorb o text n hoffered
  | endOffer o text n reason hoffered =>
      exact (habsorb o text n hoffered).subsides (.endOffer ..)
        (.of_endRun (.endOffer ..))
  | endSession l s reason hlive _ hadmitted =>
      have hrefused := h.acts (.refuse l s hlive hadmitted) (KeepsOthers.setPhase w q _) fun o => by
        rw [phase_setPhase_self]
        nofun
      exact hrefused.endSession ..
  | refused l s e hlive _ hadmitted hwritten =>
      have hwrote := hwrite hwritten (hsuspended hlive hadmitted)
      exact ((hwrote.resume ..).endSession ..).setWriting q false
  | written l s e hlive _ hadmitted hwritten =>
      have hresumed := (hwrite hwritten (hsuspended hlive hadmitted)).resume q l.epoch
      split
      · exact hresumed.setWriting q false
      · exact (hresumed.emit ..).setWriting q false

/-- A message may begin a trace or prolong it. -/
theorem handleMessage (h : w.OfferTraced p) (hwrite : WriterKeeps (KeepsOfferTraced p) write)
    (hrun : w.handleMessage write q sender payload = .ok (result, w')) : w'.OfferTraced p := by
  by_cases hwaits : p = q ∧ ∀ l, w.phase p ≠ .live l
  · obtain ⟨rfl, hlive⟩ := hwaits
    refine ⟨fun o' hoffered' => ?_⟩
    cases hphase : w.phase p with
    | idle =>
        obtain ⟨offer, hdecode, rfl⟩ := exists_start_of_handleMessage hphase hrun hoffered'
        exact ⟨offer, [], .offered hphase hdecode hrun⟩
    | offered o =>
        obtain ⟨offer, inbox, htrace⟩ := h.exists_trace o hphase
        exact ⟨offer, _, htrace.message hrun hoffered'⟩
    | live l => exact absurd hphase (hlive l)
  · have hbusy : p = q → w.phase q ≠ .idle ∧ ∀ o, w.phase q ≠ .offered o := by
      rintro rfl
      refine ⟨fun hidle => hwaits ⟨rfl, ?_⟩, fun o hoffered => hwaits ⟨rfl, ?_⟩⟩
      · rw [hidle]
        nofun
      · rw [hoffered]
        nofun
    cases MessageRun.of_handleMessage hrun with
    | unreadable => exact h
    | start => exact h.handleStart sender _ fun hq => (hbusy hq).1
    | update _ hupdate => exact h.handleUpdate hwrite (fun hq => (hbusy hq).2) hupdate
    | stop => exact h.subsides (.handleStop ..) (.of_endRun (.handleStop ..))

end World.OfferTraced

end Session

end PairEdit
