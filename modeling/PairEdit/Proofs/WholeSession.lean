import PairEdit.Proofs.Agreement

/-!
# A whole session

Two parties on one network, from the moment they are set up.  The initiator offers its
document once.  Before and after that both edit, handle what arrives and stop, in any
order; the receiver accepts or refuses; the hosts add and remove listeners of their own
that only watch, and read events.
-/

namespace PairEdit.Session

open Function

variable {bound : Nat} {config : Config} {ids : Nat → PeerId} {texts : Nat → Text} {w w' : World}

/-- Both parties idle, each in front of a document of its own. -/
def duet (config : Config) (ids : Nat → PeerId) (texts : Nat → Text) : World :=
  let (_, w) := World.empty.addParty (ids 0) config
  let (_, w) := w.addParty (ids 1) config
  let (_, w) := w.addDocument (texts 0)
  let (_, w) := w.addDocument (texts 1)
  w

/-- The calls that the hosts may make at any time. -/
inductive Ordinary : Call → Prop
  | edit (role : Role) (e : Edit) : Ordinary (.edit role.index e)
  | handleNext (role : Role) : Ordinary (.handleNext role.index)
  | stop (role : Role) : Ordinary (.stop role.index)
  | accept : Ordinary (.accept Role.receiver.index Role.receiver.index)
  | decline : Ordinary (.decline Role.receiver.index)

/-- The call with which the initiator offers its document. -/
def invite (ids : Nat → PeerId) (name : Option Text) (fileName : Text) : Call :=
  .start Role.initiator.index (ids 0) name (ids 1) fileName Role.initiator.index

/-- What the host of a party may do beside it: add a listener that only watches, remove a
listener that is not the party's, and read the events. -/
inductive Watches (role : Role) (w : World) : World → Prop
  | listen {script : List (List Call)} :
      (∀ calls ∈ script, calls = []) → Watches role w (w.listen role.index script).2
  | unlisten {id : Nat} :
      (∀ l ∈ (w.document role.index).listeners, l.1 = id → l.2.isCapture = false) →
      Watches role w (w.unlisten role.index id)
  | readEvents : Watches role w (w.readEvents role.index).2

/-- What may happen next: a call, or something that a host does beside its party. -/
inductive Step (w : World) : World → Prop
  | call {c : Call} {outcome : Outcome} {w' : World} :
      Ordinary c → w.run c = .ok (outcome, w') → Step w w'
  | watch {role : Role} {w' : World} : Watches role w w' → Step w w'

/-- Whether a local edit could not be sent. -/
def Event.isSendFailed : Event → Bool
  | .sendFailed .. => true
  | _ => false

/-- No text is too long for a signed word, and no local edit failed to be sent. -/
def Calm (w : World) : Prop :=
  ∀ role : Role, (w.seats role.index).Roomy ∧
    ∀ event ∈ (w.party role.index).events, event.isSendFailed = false

instance (w : World) : Decidable (Calm w) :=
  inferInstanceAs (Decidable (∀ role : Role, (w.seats role.index).Roomy ∧
    ∀ event ∈ (w.party role.index).events, event.isSendFailed = false))

/-- A party holds no text of more than `bound` characters, neither its own nor one that it has
been offered, and all its edits could be sent. -/
structure Seat.Short (bound : Nat) (s : Seat) : Prop where
  text_le : s.text.length ≤ bound
  buffer_le : ∀ o, s.phase = .offered o → o.buffer.length ≤ bound
  sent : ∀ event ∈ s.events, event.isSendFailed = false

/-- Both parties hold short texts only. -/
def Short (bound : Nat) (w : World) : Prop := ∀ role : Role, (w.seats role.index).Short bound

theorem Calm.short (h : Calm w) : Short Word.maxSigned w :=
  fun role => ⟨(h role).1.1.length_le, (h role).1.2, (h role).2⟩

/-- What two parties may come to; the flag says whether the initiator has made its
offer. -/
inductive Reachable (config : Config) (ids : Nat → PeerId) (texts : Nat → Text) :
    Bool → World → Prop
  | init : Calm (duet config ids texts) → Reachable config ids texts false (duet config ids texts)
  | step {started : Bool} {w w' : World} : Reachable config ids texts started w → Step w w' →
      Calm w' → Reachable config ids texts started w'
  | start {name : Option Text} {fileName : Text} {outcome : Outcome} {w w' : World} :
      Reachable config ids texts false w →
      w.run (invite ids name fileName) = .ok (outcome, w') → Calm w' →
      Reachable config ids texts true w'

/-- What a host does beside its party is seen in the unread events at most. -/
theorem Furnished.watches (h : Furnished ids config w.seats w) {role : Role}
    (hw' : Watches role w w') :
    ∃ events, Furnished ids config
      (update w.seats role.index ((w.seats role.index).setEvents events)) w' := by
  have hsame : update w.seats role.index
      ((w.seats role.index).setEvents (w.seats role.index).events) = w.seats :=
    update_eq_self _ _
  cases hw' with
  | listen hscript => exact ⟨_, hsame.symm ▸ h.listenHost role.index hscript⟩
  | unlisten hid => exact ⟨_, hsame.symm ▸ h.unlistenHost role.index _ hid⟩
  | readEvents => exact ⟨[], h.readEvents role.index⟩

/-! ## Before the offer -/

/-- Nobody has said anything yet. -/
structure Fresh (config : Config) (ids : Nat → PeerId) (w : World) : Prop where
  furnished : Furnished ids config w.seats w
  tidy : ∀ role : Role, (w.seats role.index).Tidy role.index
  phase_eq : ∀ role : Role, (w.seats role.index).phase = .idle
  queue_eq : ∀ role : Role, (w.seats role.index).queue = []

namespace Fresh

theorem duet (config : Config) (hids : ids 0 ≠ ids 1) (texts : Nat → Text) :
    Fresh config ids (duet config ids texts) := by
  have hendpoints : (Session.duet config ids texts).network.endpoints.slots =
      [⟨ids 0, [], true, true⟩, ⟨ids 1, [], true, true⟩] := by
    simp [Session.duet, World.empty, World.addParty, World.addEndpoint, World.addDocument,
      Network.create, Network.empty, Network.Endpoint.detachFrom, Table.push, Table.empty, hids]
  have hqueue : ∀ role : Role, ((Session.duet config ids texts).seats role.index).queue = [] := by
    intro role
    cases role <;> simp [World.seats, Network.endpoint, Table.get, hendpoints, Role.index]
  refine ⟨⟨rfl, ?_, ?_, ?_, ?_⟩, ?_, ?_, hqueue⟩
  · rw [hendpoints]
    have hinitiator : ((Session.duet config ids texts).seats 0).queue = [] := hqueue .initiator
    have hreceiver : ((Session.duet config ids texts).seats 1).queue = [] := hqueue .receiver
    rw [hinitiator, hreceiver]
  · intro p hp
    rcases Nat.le_one_iff_eq_zero_or_eq_one.1 (Nat.le_of_lt_succ hp) with rfl | rfl
    · exact ⟨rfl, rfl⟩
    · exact ⟨rfl, rfl⟩
  · intro p hp
    rcases Nat.le_one_iff_eq_zero_or_eq_one.1 (Nat.le_of_lt_succ hp) with rfl | rfl
    · exact ⟨rfl, rfl⟩
    · exact ⟨rfl, rfl⟩
  · intro i calls hcalls
    cases hcalls
  · intro role
    cases role <;> exact .of_not_live rfl (fun _ h => by cases h) rfl
  · intro role
    cases role <;> rfl

/-- A seat whose text and events change is as fresh as before. -/
theorem of_update (h : Fresh config ids w) {role : Role} {s : Seat}
    (hw' : Furnished ids config (update w.seats role.index s) w') (hs : s.Tidy role.index)
    (hphase : s.phase = .idle) (hqueue : s.queue = []) : Fresh config ids w' := by
  have hseats : ∀ role' : Role, (role'.index = role.index ∧ w'.seats role'.index = s) ∨
      w'.seats role'.index = w.seats role'.index := by
    intro role'
    rcases eq_or_ne role'.index role.index with heq | hne
    · exact .inl ⟨heq, by rw [hw'.seats_eq, heq, update_self]⟩
    · exact .inr (by rw [hw'.seats_eq, update_of_ne hne])
  refine ⟨hw'.seats_eq.symm ▸ hw', ?_, ?_, ?_⟩
  · intro role'
    rcases hseats role' with ⟨heq, hseat⟩ | hseat
    · rwa [hseat, heq]
    · rw [hseat]
      exact h.tidy role'
  · intro role'
    rcases hseats role' with ⟨-, hseat⟩ | hseat
    · rw [hseat, hphase]
    · rw [hseat, h.phase_eq]
  · intro role'
    rcases hseats role' with ⟨-, hseat⟩ | hseat
    · rw [hseat, hqueue]
    · rw [hseat, h.queue_eq]

/-- Before the offer a call can only change a text. -/
theorem run (h : Fresh config ids w) {c : Call} {outcome : Outcome} (hc : Ordinary c)
    (hrun : w.run c = .ok (outcome, w')) : Fresh config ids w' := by
  have hidle := h.phase_eq
  cases hc with
  | edit role e =>
      cases happly : e.apply (w.seats role.index).text with
      | error reason =>
          rw [h.furnished.run_edit_of_error role.index_lt happly] at hrun
          cases hrun
          exact h
      | ok text =>
          obtain ⟨w'', hrun', hw'⟩ := h.furnished.run_edit_of_not_live role.index_lt
            (h.tidy role) (by simp [hidle role]) happly
          rw [hrun'] at hrun
          cases hrun
          exact h.of_update hw' ((h.tidy role).congr rfl rfl rfl) (hidle role) (h.queue_eq role)
  | handleNext role =>
      rw [h.furnished.run_handleNext_of_nil role.index_lt (h.queue_eq role)] at hrun
      cases hrun
      exact h
  | stop role =>
      rw [h.furnished.run_stop_of_idle (hidle role)] at hrun
      cases hrun
      exact h
  | accept =>
      rw [h.furnished.run_accept_of_not_offered (by simp [hidle .receiver])
        (h.tidy .receiver).writing_eq] at hrun
      cases hrun
      exact h
  | decline =>
      rw [h.furnished.run_decline_of_not_offered (by simp [hidle .receiver])] at hrun
      cases hrun
      exact h

theorem step (h : Fresh config ids w) (hstep : Step w w') : Fresh config ids w' := by
  cases hstep with
  | call hc hrun => exact h.run hc hrun
  | watch hwatch =>
      obtain ⟨events, hw'⟩ := h.furnished.watches hwatch
      exact h.of_update hw' ((h.tidy _).congr rfl rfl rfl) (h.phase_eq _) (h.queue_eq _)

/-- The offer leads to an exchange, or back to idleness when it could not be sent. -/
theorem run_invite (h : Fresh config ids w) (hsetup : Setup config ids) {name : Option Text}
    {fileName : Text} {outcome : Outcome}
    (hrun : w.run (invite ids name fileName) = .ok (outcome, w'))
    (htexts : (w'.seats Role.initiator.index).text.length ≤ bound) :
    Agreeing bound config ids w' := by
  have hqueue := h.queue_eq .initiator
  obtain ⟨s, htext, hsqueue, hstidy, ⟨hidle, hw'⟩ | hinvited⟩ :=
    h.furnished.run_start hsetup.ids_ne Role.initiator.index_lt Role.receiver.index_lt
      Role.initiator.index_ne hsetup.strategy_eq (h.tidy .initiator) (h.phase_eq .initiator) hrun
  · -- Nothing was sent, so any exchange will do: both parties count as having left it.
    have hsame : update w.seats Role.initiator.index s Role.initiator.other.index =
        w.seats Role.receiver.index := update_of_ne Role.initiator.index_ne.symm _ _
    rw [← update_eq_self Role.initiator.other.index (update w.seats Role.initiator.index s),
      hsame] at hw'
    exact Agreeing.of_update hw' hstidy (h.tidy .receiver)
      (@Linked.start bound .initiator [] (Nat.zero_le _))
      (.of_queue_nil hidle (hsqueue.trans hqueue))
      (.of_queue_nil (h.phase_eq .receiver) (h.queue_eq .receiver)) (by simp)
  · obtain ⟨l, offer, payload, hlive, hparticipants, hstrategy, hsender, hreceiver, hdocument,
      hencode, hw'⟩ := hinvited
    have hdecode : Message.decode config.limits payload = .ok (.start offer) :=
      Message.decode_of_encode hsetup.messageBytes_le hencode (by simp)
    have hnomail : (w.seats Role.receiver.index).mail config.limits = letters (ids 0) [] := by
      rw [Seat.mail, h.queue_eq]
      rfl
    rw [hw'.seats_eq, update_of_ne (by decide), update_self] at htexts
    refine Agreeing.of_update hw' hstidy ((h.tidy .receiver).congr rfl rfl rfl)
      (Linked.start .initiator htexts)
      (.live hlive hparticipants hstrategy rfl (Nat.zero_le _) ?_)
      (.awaiting (h.phase_eq .receiver) hsender hreceiver ?_ (Seat.mail_append hnomail hdecode))
      fun _ => ⟨_, Message.encode_stop_of_start hencode⟩
    · rw [Seat.mail, hsqueue, hqueue]
      rfl
    · rw [hdocument, htext]
      rfl

end Fresh

/-! ## After the offer -/

namespace Agreeing

theorem run (hsetup : Setup config ids) (h : Agreeing bound config ids w) {c : Call}
    {outcome : Outcome} (hc : Ordinary c) (hrun : w.run c = .ok (outcome, w')) (hw : Calm w)
    (hw' : Short bound w') (hbound : bound ≤ Word.maxSigned) : Agreeing bound config ids w' := by
  cases hc with
  | edit role e =>
      refine h.run_edit hsetup hrun ?_ (hw' role).text_le hbound
      intro peer reason hfailed
      cases (hw' role).sent _ hfailed
  | handleNext role =>
      rcases h.handles hsetup role (hw role).1 hbound with
        ⟨hoverflow, -⟩ | ⟨result, w'', hrun', -, hw''⟩
      · rw [hoverflow] at hrun
        cases hrun
      · rw [hrun'] at hrun
        cases hrun
        exact hw''
  | stop role =>
      obtain ⟨outcome', w'', hrun', hw''⟩ := h.run_stop hsetup role
      rw [hrun'] at hrun
      cases hrun
      exact hw''
  | accept => exact h.run_accept hsetup (hw .receiver).1 hrun
  | decline =>
      obtain ⟨outcome', w'', hrun', hw''⟩ := h.run_decline hsetup .receiver
      rw [hrun'] at hrun
      cases hrun
      exact hw''

theorem step (hsetup : Setup config ids) (h : Agreeing bound config ids w) (hstep : Step w w')
    (hw : Calm w) (hw' : Short bound w') (hbound : bound ≤ Word.maxSigned) :
    Agreeing bound config ids w' := by
  cases hstep with
  | call hc hrun => exact h.run hsetup hc hrun hw hw' hbound
  | watch hwatch =>
      rename_i role
      obtain ⟨side, otherSide, left, otherLeft, hlinked, hside, hother, hstop⟩ :=
        h.between.of_role role
      obtain ⟨events, hw'⟩ := h.furnished.watches hwatch
      exact h.of_update_one hw' ((h.tidy role).congr rfl rfl rfl) hlinked
        (hside.congr rfl rfl fun _ _ => rfl) hother hstop

/-- As long as no text that a party holds is longer than `bound`, those in between are not twice
as long. -/
theorem calm (h : Agreeing bound config ids w)
    (hw : Short bound w)
    (hbound : bound + bound ≤ Word.maxSigned) : Calm w := by
  intro role
  obtain ⟨side, otherSide, left, otherLeft, hlinked, hside, -, -⟩ := h.between.of_role role
  have hle : bound ≤ Word.maxSigned := Nat.le_trans (Nat.le_add_right ..) hbound
  exact ⟨hside.roomy (hlinked.roomy hbound) (Nat.le_trans (hw role).text_le hle)
    fun o ho => Nat.le_trans ((hw role).buffer_le o ho) hle, (hw role).sent⟩

end Agreeing

theorem Fresh.calm (h : Fresh config ids w) (hw : Short bound w)
    (hbound : bound ≤ Word.maxSigned) : Calm w := by
  intro role
  refine ⟨⟨?_, fun o ho => Nat.le_trans ((hw role).buffer_le o ho) hbound⟩, (hw role).sent⟩
  rw [h.phase_eq role]
  exact Nat.le_trans (hw role).text_le hbound

/-- What holds before the offer, and after it. -/
def Sound (bound : Nat) (config : Config) (ids : Nat → PeerId) : Bool → World → Prop
  | false => Fresh config ids
  | true => Agreeing bound config ids

theorem Sound.step {started : Bool} (h : Sound bound config ids started w)
    (hsetup : Setup config ids) (hstep : Step w w') (hw : Calm w)
    (hw' : Short bound w') (hbound : bound ≤ Word.maxSigned) :
    Sound bound config ids started w' := by
  cases started with
  | false => exact Fresh.step h hstep
  | true => exact Agreeing.step hsetup h hstep hw hw' hbound

theorem Sound.calm {started : Bool} (h : Sound bound config ids started w)
    (hw : Short bound w)
    (hbound : bound + bound ≤ Word.maxSigned) : Calm w := by
  cases started with
  | false => exact Fresh.calm h hw (Nat.le_trans (Nat.le_add_right ..) hbound)
  | true => exact Agreeing.calm h hw hbound

theorem Reachable.calm {started : Bool} (h : Reachable config ids texts started w) : Calm w := by
  cases h with
  | init hcalm => exact hcalm
  | step _ _ hcalm => exact hcalm
  | start _ _ hcalm => exact hcalm

theorem Reachable.sound {started : Bool} (h : Reachable config ids texts started w)
    (hsetup : Setup config ids) : Sound Word.maxSigned config ids started w := by
  induction h with
  | init _ => exact Fresh.duet config hsetup.ids_ne texts
  | step hw hstep hcalm ih => exact ih.step hsetup hstep hw.calm hcalm.short (Nat.le_refl _)
  | start _ hrun hcalm ih =>
      exact Fresh.run_invite ih hsetup hrun (hcalm.short .initiator).text_le

/-- What two parties may come to while neither holds a text of more than `bound` characters. -/
inductive Within (bound : Nat) (config : Config) (ids : Nat → PeerId) (texts : Nat → Text) :
    Bool → World → Prop
  | init : Short bound (duet config ids texts) →
      Within bound config ids texts false (duet config ids texts)
  | step {started : Bool} {w w' : World} : Within bound config ids texts started w → Step w w' →
      Short bound w' → Within bound config ids texts started w'
  | start {name : Option Text} {fileName : Text} {outcome : Outcome} {w w' : World} :
      Within bound config ids texts false w →
      w.run (invite ids name fileName) = .ok (outcome, w') →
      Short bound w' → Within bound config ids texts true w'

theorem Within.reachable_and_sound {started : Bool} (h : Within bound config ids texts started w)
    (hsetup : Setup config ids) (hbound : bound + bound ≤ Word.maxSigned) :
    Reachable config ids texts started w ∧ Sound bound config ids started w := by
  have hle : bound ≤ Word.maxSigned := Nat.le_trans (Nat.le_add_right ..) hbound
  induction h with
  | init hshort =>
      have hfresh := Fresh.duet config hsetup.ids_ne texts
      exact ⟨.init (hfresh.calm hshort hle), hfresh⟩
  | step _ hstep hshort ih =>
      have hsound := ih.2.step hsetup hstep ih.1.calm hshort hle
      exact ⟨ih.1.step hstep (hsound.calm hshort hbound), hsound⟩
  | start _ hrun hshort ih =>
      have hagreeing := Fresh.run_invite ih.2 hsetup hrun (hshort .initiator).text_le
      exact ⟨ih.1.start hrun (hagreeing.calm hshort hbound), hagreeing⟩

/-- The texts that outstanding edits apply to are at most twice as long as those that the two
parties hold.  So they stay below 2 ^ 63 characters as long as the latter stay below 2 ^ 62. -/
theorem Within.reachable {started : Bool} (h : Within bound config ids texts started w)
    (hsetup : Setup config ids) (hbound : bound + bound ≤ Word.maxSigned) :
    Reachable config ids texts started w :=
  (h.reachable_and_sound hsetup hbound).1

/-! ## Runs of calls -/

/-- The world after a call that completes. -/
def World.after (w : World) (c : Call) : World :=
  match w.run c with
  | .ok (_, w') => w'
  | .error _ => w

theorem World.exists_run_eq_after {w : World} {c : Call} (h : (w.run c).isOk = true) :
    ∃ outcome, w.run c = .ok (outcome, w.after c) := by
  unfold after
  cases hrun : w.run c with
  | ok result => exact ⟨result.1, rfl⟩
  | error fault =>
      rw [hrun] at h
      cases h

theorem Reachable.after {started : Bool} (h : Reachable config ids texts started w) {c : Call}
    (hc : Ordinary c) (hrun : (w.run c).isOk = true) (hcalm : Calm (w.after c)) :
    Reachable config ids texts started (w.after c) := by
  obtain ⟨outcome, hrun⟩ := World.exists_run_eq_after hrun
  exact h.step (.call hc hrun) hcalm

theorem Reachable.after_invite (h : Reachable config ids texts false w) {name : Option Text}
    {fileName : Text} (hrun : (w.run (invite ids name fileName)).isOk = true)
    (hcalm : Calm (w.after (invite ids name fileName))) :
    Reachable config ids texts true (w.after (invite ids name fileName)) := by
  obtain ⟨outcome, hrun⟩ := World.exists_run_eq_after hrun
  exact h.start hrun hcalm

/-! ## At rest -/

/-- How two parties may stand to each other when nothing is on the way between them. -/
inductive AtRest (ids : Nat → PeerId) (w : World) : Prop
  /-- They have nothing to do with each other, and nobody captures edits. -/
  | apart : (∀ role : Role, w.phase role.index = .idle ∧
      ∀ l ∈ (w.document role.index).listeners, l.2.isCapture = false) → AtRest ids w
  /-- The receiver has been offered what is now the initiator's text. -/
  | offering {l : Live} {o : Offered} :
      w.phase Role.initiator.index = .live l → l.participants = ⟨ids 0, ids 0, ids 1⟩ →
      l.document = Role.initiator.index →
      w.phase Role.receiver.index = .offered o → o.participants = ⟨ids 1, ids 0, ids 1⟩ →
      o.buffer = (w.document Role.initiator.index).text → AtRest ids w
  /-- They share one text. -/
  | sharing {l l' : Live} :
      w.phase Role.initiator.index = .live l → l.participants = ⟨ids 0, ids 0, ids 1⟩ →
      l.document = Role.initiator.index →
      w.phase Role.receiver.index = .live l' → l'.participants = ⟨ids 1, ids 0, ids 1⟩ →
      l'.document = Role.receiver.index →
      (w.document Role.initiator.index).text = (w.document Role.receiver.index).text →
      AtRest ids w

theorem AtRest.of_idle (htidy : ∀ role : Role, (w.seats role.index).Tidy role.index)
    (hidle : ∀ role : Role, (w.seats role.index).phase = .idle) : AtRest ids w := by
  refine .apart fun role => ⟨hidle role, ?_⟩
  intro l hl
  have hcaptures : captures (w.document role.index) = [] :=
    (htidy role).apart (by simp [hidle role])
  simpa using List.filter_eq_nil_iff.1 hcaptures l hl

theorem Agreeing.atRest (h : Agreeing bound config ids w)
    (hqueues : ∀ role : Role, (w.seats role.index).queue = []) : AtRest ids w := by
  obtain ⟨side, otherSide, left, otherLeft, hlinked, hside, hother, -⟩ := h.between
  have htidy := h.tidy
  cases hside with
  | left hidle _ _ =>
      cases hother with
      | left hidle' _ _ =>
          refine .of_idle htidy ?_
          rintro (_ | _)
          · exact hidle
          · exact hidle'
      | awaiting _ _ _ _ hletters =>
          cases Seat.nil_of_queue_nil (hqueues .receiver) hletters
      | offered _ _ _ hletters | live _ _ _ _ _ hletters =>
          -- The initiator has left, so its last message is still to come.
          have hnone := Seat.nil_of_queue_nil (hqueues .receiver) hletters
          cases (Side.coming_eq_nil_iff.1 hnone).2
  | live hlive hparticipants _ htext _ hletters =>
      have hnone := Seat.nil_of_queue_nil (hqueues .initiator) hletters
      obtain ⟨hinbox, rfl⟩ := Side.coming_eq_nil_iff.1 hnone
      have hdocument := ((htidy .initiator).live _ hlive).1
      cases hother with
      | awaiting _ _ _ _ hletters' =>
          cases Seat.nil_of_queue_nil (hqueues .receiver) hletters'
      | offered hoffered hparticipants' hreplica hletters' =>
          have hnone' := Seat.nil_of_queue_nil (hqueues .receiver) hletters'
          have htexts := hlinked.text_eq hinbox (Side.coming_eq_nil_iff.1 hnone').1
          rw [← htext, hreplica] at htexts
          exact .offering hlive hparticipants hdocument hoffered hparticipants' htexts.symm
      | live hlive' hparticipants' _ htext' _ hletters' =>
          have hnone' := Seat.nil_of_queue_nil (hqueues .receiver) hletters'
          have htexts := hlinked.text_eq hinbox (Side.coming_eq_nil_iff.1 hnone').1
          rw [← htext, ← htext'] at htexts
          exact .sharing hlive hparticipants hdocument hlive' hparticipants'
            ((htidy .receiver).live _ hlive').1 htexts

theorem Sound.atRest {started : Bool} (h : Sound bound config ids started w)
    (hqueues : ∀ role : Role, (w.network.endpoint role.index).queue = []) : AtRest ids w := by
  cases started with
  | false => exact .of_idle (Fresh.tidy h) (Fresh.phase_eq h)
  | true => exact Agreeing.atRest h hqueues

/-- Handling the next arrival goes well. -/
theorem Sound.run_handleNext {started : Bool} (h : Sound bound config ids started w)
    (hsetup : Setup config ids) (hcalm : Calm w) (hbound : bound ≤ Word.maxSigned) (role : Role) :
    w.run (.handleNext role.index) = .error .overflow ∧ Word.max ≤ (w.phase role.index).received ∨
    ∃ result w', w.run (.handleNext role.index) = .ok (.next (.ok result), w') ∧
      Harmless config.limits result := by
  cases started with
  | false =>
      have hfresh : Fresh config ids w := h
      exact .inr ⟨none, w,
        hfresh.furnished.run_handleNext_of_nil role.index_lt (hfresh.queue_eq role), .nothing⟩
  | true =>
      have hagreeing : Agreeing bound config ids w := h
      rcases hagreeing.handles hsetup role (hcalm role).1 hbound with
        hoverflow | ⟨result, w', hrun, hharmless, -⟩
      · exact .inl hoverflow
      · exact .inr ⟨result, w', hrun, hharmless⟩

/-- Two parties that set out to share a document agree.  Whatever they have done, in
whatever order: handling the next arrival succeeds as long as the counter of the peer's
edits has not come to its end; it gives no error but that of an offered text that has
outgrown the limit; and when nothing is on the way, the parties are apart, or the
receiver has been offered what is now the initiator's text, or they share one text.

The texts that are to stay below 2 ^ 63 characters are those of the two documents, the text
that has been offered and the texts that outstanding edits apply to.  The last ones nobody
holds; by `Within.reachable` they stay below 2 ^ 63 as long as the others stay below 2 ^ 62. -/
theorem session_agrees (hsetup : Setup config ids) {started : Bool}
    (h : Reachable config ids texts started w) :
    (∀ role : Role, (w.phase role.index).received < Word.max →
      ∃ outcome w', w.run (.handleNext role.index) = .ok (outcome, w')) ∧
    (∀ (role : Role) (outcome : Outcome) (w' : World),
      w.run (.handleNext role.index) = .ok (outcome, w') →
      ∃ result, outcome = .next (.ok result) ∧ Harmless config.limits result) ∧
    ((∀ role : Role, (w.network.endpoint role.index).queue = []) → AtRest ids w) := by
  have hsound := h.sound hsetup
  refine ⟨?_, ?_, hsound.atRest⟩
  · intro role hcount
    rcases hsound.run_handleNext hsetup h.calm (Nat.le_refl _) role with
      ⟨-, hmax⟩ | ⟨result, w', hrun, -⟩
    · exact absurd hcount (Nat.not_lt_of_le hmax)
    · exact ⟨_, w', hrun⟩
  · intro role outcome w' hrun
    rcases hsound.run_handleNext hsetup h.calm (Nat.le_refl _) role with
      ⟨hoverflow, -⟩ | ⟨result, w'', hrun', hharmless⟩
    · rw [hoverflow] at hrun
      cases hrun
    · rw [hrun'] at hrun
      cases hrun
      exact ⟨result, rfl, hharmless⟩

/-- Both parties insert at the same place before either hears of the other. -/
theorem session_agrees_same_place :
    let ids : Nat → PeerId := fun p => .ofByte (if p = 0 then 0xA1 else 0xB0)
    let texts : Nat → Text := fun p => if p = 0 then ['a', 'b'] else []
    ∃ w, Setup Config.usual ids ∧ Reachable Config.usual ids texts true w ∧ AtRest ids w ∧
      ∀ role : Role, (w.document role.index).text = ['a', 'I', 'R', 'b'] := by
  have hsetup : Setup Config.usual fun p => .ofByte (if p = 0 then 0xA1 else 0xB0) :=
    ⟨by decide, rfl, by decide⟩
  have h₀ := @Reachable.init Config.usual (fun p => .ofByte (if p = 0 then 0xA1 else 0xB0))
    (fun p => if p = 0 then ['a', 'b'] else []) (by decide +kernel)
  have h₁ := @Reachable.after_invite _ _ _ _ h₀ none [] (by decide +kernel) (by decide +kernel)
  have h₂ := h₁.after (.handleNext .receiver) (by decide +kernel) (by decide +kernel)
  have h₃ := h₂.after .accept (by decide +kernel) (by decide +kernel)
  have h₄ := h₃.after (.edit .initiator ⟨1, 0, ['I']⟩) (by decide +kernel) (by decide +kernel)
  have h₅ := h₄.after (.edit .receiver ⟨1, 0, ['R']⟩) (by decide +kernel) (by decide +kernel)
  have h₆ := h₅.after (.handleNext .receiver) (by decide +kernel) (by decide +kernel)
  have h₇ := h₆.after (.handleNext .initiator) (by decide +kernel) (by decide +kernel)
  exact ⟨_, hsetup, h₇, (session_agrees hsetup h₇).2.2 (by decide +kernel), by decide +kernel⟩

end PairEdit.Session
