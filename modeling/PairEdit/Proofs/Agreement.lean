import PairEdit.Proofs.SideRepresentation

/-!
# Two parties agree

A session from the offer to the end, with any edits, arrivals and stops in between.
`Agreeing` is what holds between the calls once the initiator has offered its document:
behind the two seats is an exchange, and each party stands to its side of it.  Every call
keeps it.  When nothing is on the way any more, the exchange says that the texts are
equal.
-/

namespace PairEdit

/-- How many edits of the peer a strategy has counted. -/
def Strategy.received : Strategy → Nat
  | .backlog b => b.received
  | .plain => 0

namespace Session

open Function

/-- How many edits of the peer a party has counted. -/
def Phase.received : Phase → Nat
  | .idle => 0
  | .offered o => o.buffered
  | .live l => l.strategy.received

/-- What handling an arrival may give: nothing was there, it went well, or the offered
text has outgrown the limit. -/
inductive Harmless (limits : Limits) : Option (Except ShareError Unit) → Prop
  | nothing : Harmless limits none
  | handled : Harmless limits (some (.ok ()))
  | tooLarge {chars : Nat} : limits.documentChars < chars → Harmless limits
      (some (.error (.sync (.invalidMessage (.pendingTooLarge chars limits.documentChars)))))

/-- The two parties have different identities, the usual strategy and limits that words
can express. -/
structure Setup (config : Config) (ids : Nat → PeerId) : Prop where
  ids_ne : ids 0 ≠ ids 1
  strategy_eq : config.strategy = .backlog
  messageBytes_le : config.limits.messageBytes ≤ Word.max

/-- Behind the two seats is an exchange, in which no text is longer than `bound`. -/
structure Agreeing (bound : Nat) (config : Config) (ids : Nat → PeerId) (w : World) : Prop where
  furnished : Furnished ids config w.seats w
  tidy : ∀ role : Role, (w.seats role.index).Tidy role.index
  between : Between bound config ids w.seats .initiator

namespace Agreeing

variable {bound : Nat} {config : Config} {ids : Nat → PeerId} {w w' : World} {role : Role}
variable {s t : Seat} {side otherSide : Side} {left otherLeft : Bool}

/-- A call that changes the two seats leaves them tidy, and behind them an exchange. -/
theorem of_update (hw' : Furnished ids config
      (update (update w.seats role.index s) role.other.index t) w')
    (hs : s.Tidy role.index) (ht : t.Tidy role.other.index) (hlinked : Linked bound side otherSide)
    (hside : Represents config ids role s side left otherLeft)
    (hother : Represents config ids role.other t otherSide otherLeft left)
    (hstop : left = false ∨ otherLeft = false →
      ∃ payload, Message.stop.encode config.limits = .ok payload) :
    Agreeing bound config ids w' := by
  have hseat : w'.seats role.index = s := by
    rw [hw'.seats_eq, update_of_ne role.index_ne, update_self]
  have hseat' : w'.seats role.other.index = t := by
    rw [hw'.seats_eq, update_self]
  refine ⟨hw'.seats_eq.symm ▸ hw', ?_, ?_⟩
  · intro role'
    rcases Decidable.em (role' = role) with rfl | hne
    · rwa [hseat]
    · obtain rfl := Role.eq_other_of_ne hne
      rwa [hseat']
  · have hbetween : Between bound config ids w'.seats role := by
      refine ⟨side, otherSide, left, otherLeft, hlinked, ?_, ?_, hstop⟩
      · rwa [hseat]
      · rwa [hseat']
    exact hbetween.of_role .initiator

/-- A call that changes one seat. -/
theorem of_update_one (h : Agreeing bound config ids w)
    (hw' : Furnished ids config (update w.seats role.index s) w') (hs : s.Tidy role.index)
    (hlinked : Linked bound side otherSide)
    (hside : Represents config ids role s side left otherLeft)
    (hother : Represents config ids role.other (w.seats role.other.index) otherSide otherLeft left)
    (hstop : left = false ∨ otherLeft = false →
      ∃ payload, Message.stop.encode config.limits = .ok payload) :
    Agreeing bound config ids w' := by
  refine of_update (w := w) ?_ hs (h.tidy role.other) hlinked hside hother hstop
  have hsame : update w.seats role.index s role.other.index = w.seats role.other.index :=
    update_of_ne role.index_ne.symm _ _
  rwa [← hsame, update_eq_self]

/-! ## Ending -/

/-- A party that takes part leaves, and says so. -/
theorem leaves (hsetup : Setup config ids) (h : Agreeing bound config ids w)
    {events : List Event} {payload : Bytes} (hphase : (w.seats role.index).phase ≠ .idle)
    (hstop : Message.stop.encode config.limits = .ok payload)
    (hw' : Furnished ids config (update (update w.seats role.index
        ((((w.seats role.index).setPhase .idle).setCaptures []).setEvents events))
      role.other.index ((w.seats role.other.index).setQueue
        ((w.seats role.other.index).queue ++ [.message (ids role.index) payload]))) w') :
    Agreeing bound config ids w' := by
  obtain ⟨side, otherSide, left, otherLeft, hlinked, hside, hother, -⟩ := h.between.of_role role
  obtain ⟨rfl, -⟩ := hside.other_of_not_idle hsetup.ids_ne hphase
  have hdecode : Message.decode config.limits payload = .ok .stop :=
    Message.decode_of_encode hsetup.messageBytes_le hstop (by simp)
  have hhears := hother.receives_stop hdecode
  rw [Role.other_other] at hhears
  refine of_update hw' ?_ ?_ hlinked (hside.leaves hphase (by rfl) (by rfl) otherLeft) hhears
    fun _ => ⟨payload, hstop⟩
  · exact .of_not_live (h.tidy role).writing_eq (by simp) rfl
  · exact (h.tidy role.other).congr rfl rfl rfl

theorem run_stop (hsetup : Setup config ids) (h : Agreeing bound config ids w) (role : Role) :
    ∃ outcome w', w.run (.stop role.index) = .ok (outcome, w') ∧
      Agreeing bound config ids w' := by
  rcases Decidable.em ((w.seats role.index).phase = .idle) with hphase | hphase
  · exact ⟨_, w, h.furnished.run_stop_of_idle hphase, h⟩
  · obtain ⟨side, otherSide, left, otherLeft, -, hside, -, hencode⟩ := h.between.of_role role
    obtain ⟨rfl, hother⟩ := hside.other_of_not_idle hsetup.ids_ne hphase
    obtain ⟨payload, hstop⟩ := hencode (.inl rfl)
    obtain ⟨w', events, hrun, hw'⟩ := h.furnished.run_stop hsetup.ids_ne role.index_lt
      role.other.index_lt role.index_ne (h.tidy role) hother hstop
    exact ⟨_, w', hrun, h.leaves hsetup hphase hstop hw'⟩

theorem run_decline (hsetup : Setup config ids) (h : Agreeing bound config ids w) (role : Role) :
    ∃ outcome w', w.run (.decline role.index) = .ok (outcome, w') ∧
      Agreeing bound config ids w' := by
  cases hphase : (w.seats role.index).phase with
  | offered o =>
      rw [h.furnished.run_decline_of_offered hphase]
      exact h.run_stop hsetup role
  | idle | live =>
      exact ⟨_, w, h.furnished.run_decline_of_not_offered (by simp [hphase]), h⟩

/-! ## Accepting -/

theorem run_accept (hsetup : Setup config ids) (h : Agreeing bound config ids w)
    (hroomy : (w.seats Role.receiver.index).Roomy) {outcome : Outcome}
    (hrun : w.run (.accept Role.receiver.index Role.receiver.index) = .ok (outcome, w')) :
    Agreeing bound config ids w' := by
  cases hphase : (w.seats Role.receiver.index).phase with
  | idle | live =>
      have hsame := h.furnished.run_accept_of_not_offered (by simp [hphase])
        (h.tidy .receiver).writing_eq Role.receiver.index
      rw [hsame] at hrun
      cases hrun
      exact h
  | offered o =>
      have hlen := hroomy.1.length_le
      obtain ⟨s, l, hlive, hparticipants, hstrategy, hcount, htext, hqueue, htidy, hw'⟩ :=
        h.furnished.run_accept Role.receiver.index_lt hsetup.strategy_eq (h.tidy .receiver)
          hphase (Nat.le_trans hlen (by decide)) hrun
      obtain ⟨side, otherSide, left, otherLeft, hlinked, hside, hother, hstop⟩ :=
        h.between.of_role .receiver
      have hmail : s.mail config.limits = (w.seats Role.receiver.index).mail config.limits := by
        rw [Seat.mail, Seat.mail, hqueue]
      obtain ⟨rfl, hparticipants', hreplica, hletters⟩ := hside.of_offered hphase
      refine h.of_update_one hw' htidy hlinked (.live hlive ?_ ?_ ?_ ?_ ?_) hother hstop
      · rw [hparticipants, hparticipants']
        rfl
      · rw [hstrategy, hreplica]
      · rw [htext, hreplica]
      · rwa [hreplica]
      · exact hmail.trans hletters

/-! ## Local edits -/

/-- A registered edit is the last one of its side, and on its way to the other one. -/
theorem sends (hsetup : Setup config ids) (h : Agreeing bound config ids w) {l : Live}
    {b' : Backlog} {e : Edit} {u : Update} {text : Text} {payload : Bytes}
    (hlinked : Linked bound side otherSide)
    (hside : Represents config ids role (w.seats role.index) side false otherLeft)
    (hother : Represents config ids role.other (w.seats role.other.index) otherSide otherLeft false)
    (hphase : (w.seats role.index).phase = .live l)
    (happly : e.apply (w.seats role.index).text = .ok text)
    (hregister : side.replica.backlog.register? e = some (u, b'))
    (hencode : (Message.update u).encode config.limits = .ok payload)
    (hw' : Furnished ids config (update
      (update w.seats role.index (((w.seats role.index).setText text).setPhase
        (.live { l with strategy := .backlog b' })))
      role.other.index ((w.seats role.other.index).setQueue
        ((w.seats role.other.index).queue ++ [.message (ids role.index) payload]))) w')
    (htexts : (w'.seats role.index).text.length ≤ bound) (hbound : bound ≤ Word.maxSigned)
    (hstop : ∃ payload, Message.stop.encode config.limits = .ok payload) :
    Agreeing bound config ids w' := by
  obtain ⟨-, hparticipants, -, htext, hcount, hletters⟩ := hside.of_live hphase
  obtain ⟨hsent, rfl, rfl⟩ := Backlog.register?_eq_some_iff.1 hregister
  have hdecode : Message.decode config.limits payload =
      .ok (.update ⟨e, side.replica.backlog.sent + 1, side.replica.backlog.received⟩) := by
    refine Message.decode_of_encode hsetup.messageBytes_le hencode ?_
    intro u hu
    cases hu
    exact ⟨hsent, hcount⟩
  rw [hw'.seats_eq, update_of_ne role.index_ne, update_self] at htexts
  have hins := Nat.le_trans (Nat.le_trans (Edit.length_ins_le_of_apply happly) htexts) hbound
  have hedits : side.Edits e ⟨e, side.replica.backlog.sent + 1, side.replica.backlog.received⟩
      ⟨⟨_, text⟩, side.inbox⟩ := ⟨htext ▸ happly, hregister, rfl⟩
  have hreceives := hother.receives_update hdecode
  rw [Role.other_other] at hreceives
  obtain ⟨hdocument, id, hcapture, hcaptures⟩ := (h.tidy role).live l hphase
  refine of_update hw' ?_ ((h.tidy role.other).congr rfl rfl rfl)
    (hlinked.edits hedits hins htexts) (.live rfl hparticipants rfl rfl hcount hletters) hreceives
    fun _ => hstop
  exact .of_live (h.tidy role).writing_eq rfl hdocument hcapture hcaptures

theorem run_edit (hsetup : Setup config ids) (h : Agreeing bound config ids w) {e : Edit}
    {outcome : Outcome} (hrun : w.run (.edit role.index e) = .ok (outcome, w'))
    (hquiet : ∀ peer reason, .sendFailed peer reason ∉ (w'.seats role.index).events)
    (htexts : (w'.seats role.index).text.length ≤ bound) (hbound : bound ≤ Word.maxSigned) :
    Agreeing bound config ids w' := by
  obtain ⟨side, otherSide, left, otherLeft, hlinked, hside, hother, hstop⟩ :=
    h.between.of_role role
  have htidy := h.tidy role
  cases happly : e.apply (w.seats role.index).text with
  | error reason =>
      rw [h.furnished.run_edit_of_error role.index_lt happly] at hrun
      cases hrun
      exact h
  | ok text =>
      cases hphase : (w.seats role.index).phase with
      | idle | offered =>
          obtain ⟨w'', hrun', hw'⟩ :=
            h.furnished.run_edit_of_not_live role.index_lt htidy (by simp [hphase]) happly
          rw [hrun'] at hrun
          cases hrun
          refine h.of_update_one hw' (htidy.congr rfl rfl rfl) hlinked ?_ hother hstop
          exact hside.congr rfl rfl (by simp [hphase])
      | live l =>
          obtain ⟨rfl, hpeer⟩ := hside.other_of_not_idle hsetup.ids_ne (by simp [hphase])
          rw [hphase, Phase.other, Option.some.injEq] at hpeer
          obtain ⟨-, -, hstrategy, -⟩ := hside.of_live hphase
          rcases h.furnished.run_edit_of_live hsetup.ids_ne role.index_lt role.other.index_lt
            role.index_ne htidy hphase hstrategy hpeer happly hrun with
            ⟨hnoop, hw'⟩ | ⟨u, b', hregister, ⟨payload, hencode, hw'⟩ | ⟨s, reason, hs, hw'⟩⟩
          · refine h.of_update_one hw' (htidy.congr rfl rfl rfl) hlinked ?_ hother hstop
            refine hside.congr rfl rfl fun _ _ => ?_
            exact Edit.eq_of_isNoop hnoop happly
          · exact h.sends hsetup hlinked hside hother hphase happly hregister hencode hw' htexts
              hbound
              (hstop (.inl rfl))
          · have hseat : w'.seats role.index = s := by rw [hw'.seats_eq, update_self]
            rw [hseat] at hquiet
            exact absurd hs (hquiet _ reason)

/-! ## Arrivals -/

/-- Handling the next arrival goes well, unless the counter of the peer's edits has come
to its end. -/
def Handles (bound : Nat) (config : Config) (ids : Nat → PeerId) (w : World) (role : Role) :
    Prop :=
  w.run (.handleNext role.index) = .error .overflow ∧
      Word.max ≤ (w.seats role.index).phase.received ∨
    ∃ result w', w.run (.handleNext role.index) = .ok (.next (.ok result), w') ∧
      Harmless config.limits result ∧ Agreeing bound config ids w'

theorem handles_nothing (h : Agreeing bound config ids w)
    (hqueue : (w.seats role.index).queue = []) :
    Handles bound config ids w role :=
  .inr ⟨none, w, h.furnished.run_handleNext_of_nil role.index_lt hqueue, .nothing, h⟩

/-- The next arrival is taken from the queue, and what it says is handled. -/
theorem opens (h : Agreeing bound config ids w) (role : Role) {m : Message} {ms : List Message}
    (hletters : (w.seats role.index).mail config.limits =
      letters (ids role.other.index) (m :: ms)) :
    ∃ rest w₁ depth,
      ((w.seats role.index).setQueue rest).mail config.limits =
        letters (ids role.other.index) ms ∧
      Furnished ids config (update w.seats role.index ((w.seats role.index).setQueue rest)) w₁ ∧
      w.run (.handleNext role.index) =
        (w₁.handleLetter (World.write depth) role.index (ids role.other.index) m).map
          fun r => (.next (.ok (some r.1)), r.2) := by
  obtain ⟨payload, rest, hqueue, hdecode, hrest⟩ := Seat.queue_of_mail_cons hletters
  obtain ⟨w₁, depth, hw₁, hrun⟩ := h.furnished.run_handleNext_of_cons role.index_lt hqueue hdecode
  exact ⟨rest, w₁, depth, hrest, hw₁, hrun⟩

theorem Handles.of_handleLetter {write : Writer} {w₁ : World} {p : Nat} {sender : PeerId}
    {m : Message} {result : Except ShareError Unit}
    (hrun : w.run (.handleNext role.index) = (w₁.handleLetter write p sender m).map
      fun r => (.next (.ok (some r.1)), r.2))
    (hhandle : w₁.handleLetter write p sender m = .ok (result, w'))
    (hharmless : Harmless config.limits (some result)) (hw' : Agreeing bound config ids w') :
    Handles bound config ids w role := by
  refine .inr ⟨some result, w', ?_, hharmless, hw'⟩
  rw [hrun, hhandle]
  rfl

/-- What arrives at a party that has left changes nothing. -/
theorem handles_left (h : Agreeing bound config ids w) {ms : List Message}
    (hlinked : Linked bound side otherSide) (hidle : (w.seats role.index).phase = .idle)
    (hletters : (w.seats role.index).mail config.limits = letters (ids role.other.index) ms)
    (hstart : ∀ offer, Message.start offer ∉ ms)
    (hother : Represents config ids role.other (w.seats role.other.index) otherSide otherLeft true)
    (hstop : otherLeft = false → ∃ payload, Message.stop.encode config.limits = .ok payload) :
    Handles bound config ids w role := by
  cases ms with
  | nil => exact h.handles_nothing (Seat.queue_of_mail_nil hletters)
  | cons m ms =>
      obtain ⟨rest, w₁, depth, hrest, hw₁, hrun⟩ := h.opens role hletters
      have hkeep : ∀ w', Furnished ids config
          (update w.seats role.index ((w.seats role.index).setQueue rest)) w' →
            Agreeing bound config ids w' := by
        intro w' hw'
        refine h.of_update_one hw' ((h.tidy role).congr rfl rfl rfl) hlinked
          (.left hidle hrest ?_) hother (fun h => hstop (by simpa using h))
        intro offer hoffer
        exact hstart offer (List.mem_cons_of_mem _ hoffer)
      have hidle₁ : (update w.seats role.index
          ((w.seats role.index).setQueue rest) role.index).phase = .idle := by
        rwa [update_self]
      cases m with
      | start offer => exact absurd List.mem_cons_self (hstart offer)
      | stop =>
          refine .of_handleLetter hrun ?_ .handled (hkeep w₁ hw₁)
          rw [World.handleLetter, hw₁.handleStop_of_idle hidle₁]
      | update u =>
          obtain ⟨w', hhandle, hw'⟩ := hw₁.handleUpdate_of_idle (World.write depth)
            (by rw [update_self]; exact (h.tidy role).writing_eq) hidle₁ (ids role.other.index) u
          exact .of_handleLetter hrun hhandle .handled (hkeep w' hw')

/-- The offer arrives. -/
theorem handles_offer (h : Agreeing bound config ids w) {offer : Start}
    (hlinked : Linked bound side otherSide)
    (hidle : (w.seats Role.receiver.index).phase = .idle) (hsender : offer.senderId = ids 0)
    (hreceiver : offer.receiverId = ids 1)
    (hreplica : side.replica = ⟨.joined 0, offer.documentText⟩)
    (hletters : (w.seats Role.receiver.index).mail config.limits =
      letters (ids 0) (.start offer :: side.coming otherLeft))
    (hother : Represents config ids .initiator (w.seats Role.initiator.index) otherSide otherLeft
      false)
    (hstop : ∃ payload, Message.stop.encode config.limits = .ok payload) :
    Handles bound config ids w .receiver := by
  obtain ⟨rest, w₁, depth, hrest, hw₁, hrun⟩ := h.opens .receiver hletters
  obtain ⟨w', events, hhandle, hw'⟩ := hw₁.handleStart_of_idle Role.receiver.index_lt
    (by rwa [update_self]) hsender hreceiver
  rw [update_self, update_idem] at hw'
  have htidy := h.tidy .receiver
  have hcaptures := htidy.apart (by simp [hidle])
  refine .of_handleLetter hrun (congrArg Except.ok hhandle) .handled ?_
  exact h.of_update_one hw' (.of_not_live htidy.writing_eq (by simp) hcaptures) hlinked
    (.offered rfl rfl hreplica hrest) hother fun _ => hstop

/-- The last message of an other party that has left. -/
theorem handles_stop (h : Agreeing bound config ids w) (hsetup : Setup config ids)
    (hlinked : Linked bound side otherSide) (hphase : (w.seats role.index).phase ≠ .idle)
    (hside : Represents config ids role (w.seats role.index) side left true)
    (hletters : (w.seats role.index).mail config.limits =
      letters (ids role.other.index) [.stop])
    (hother : Represents config ids role.other (w.seats role.other.index) otherSide true left) :
    Handles bound config ids w role := by
  obtain ⟨rest, w₁, depth, hrest, hw₁, hrun⟩ := h.opens role hletters
  obtain ⟨-, hpeer⟩ := hside.other_of_not_idle hsetup.ids_ne hphase
  obtain ⟨events, hw'⟩ := hw₁.handleStop role.index_lt
    (by rw [update_self]; exact (h.tidy role).congr rfl rfl rfl)
    (by rw [update_self]; exact hpeer)
  rw [update_self, update_idem] at hw'
  refine .of_handleLetter hrun rfl .handled ?_
  exact h.of_update_one hw' (.of_not_live (h.tidy role).writing_eq (by simp) rfl) hlinked
    (.left rfl hrest (by simp)) (hother.of_left true) (by simp)

/-- After the last update of the other party only its message that it stops can come. -/
theorem handles_end (h : Agreeing bound config ids w) (hsetup : Setup config ids)
    (hlinked : Linked bound side otherSide) (hphase : (w.seats role.index).phase ≠ .idle)
    (hside : Represents config ids role (w.seats role.index) side left otherLeft)
    (hletters : (w.seats role.index).mail config.limits =
      letters (ids role.other.index) (if otherLeft then [.stop] else []))
    (hother : Represents config ids role.other (w.seats role.other.index) otherSide otherLeft
      left) :
    Handles bound config ids w role := by
  cases otherLeft with
  | false => exact h.handles_nothing (Seat.queue_of_mail_nil hletters)
  | true => exact h.handles_stop hsetup hlinked hphase hside hletters hother

/-! ## Updates -/

/-- The counter of the peer's edits has come to its end. -/
theorem handles_full (h : Agreeing bound config ids w) (role : Role) {u : Update}
    {ms : List Message} (hletters : (w.seats role.index).mail config.limits =
      letters (ids role.other.index) (.update u :: ms))
    (hreceive : (w.seats role.index).phase.receive? config.limits (ids role.other.index) u
      (w.seats role.index).text.length = none)
    (hcount : Word.max ≤ (w.seats role.index).phase.received) :
    Handles bound config ids w role := by
  obtain ⟨rest, w₁, depth, -, hw₁, hrun⟩ := h.opens role hletters
  have hoverflow := hw₁.handleUpdate_of_none role.index_lt (World.write depth)
    (by rw [update_self]; exact (h.tidy role).congr rfl rfl rfl) (ids role.other.index) u
    (by rw [update_self]; exact hreceive)
  refine .inl ⟨?_, hcount⟩
  rw [hrun, World.handleLetter, hoverflow]
  rfl

/-- The offered text has outgrown the limit: the offer ends, and the initiator hears of
it. -/
theorem handles_tooLarge (h : Agreeing bound config ids w) (hsetup : Setup config ids)
    {o o' : Offered} {u : Update} {ms : List Message} {chars : Nat}
    (hlinked : Linked bound side otherSide)
    (hoffered : (w.seats Role.receiver.index).phase = .offered o)
    (hparticipants : o.participants = ⟨ids 1, ids 0, ids 1⟩)
    (hlarge : config.limits.documentChars < chars)
    (habsorb : o.absorb? config.limits u.edit = some (.error
      (.sync (.invalidMessage (.pendingTooLarge chars config.limits.documentChars))), o'))
    (hsame : o'.participants = o.participants)
    (hletters : (w.seats Role.receiver.index).mail config.limits =
      letters (ids 0) (.update u :: ms))
    (hstart : ∀ offer, Message.start offer ∉ ms)
    (hother : Represents config ids .initiator (w.seats Role.initiator.index) otherSide otherLeft
      false)
    (hstop : ∃ payload, Message.stop.encode config.limits = .ok payload) :
    Handles bound config ids w .receiver := by
  obtain ⟨rest, w₁, depth, hrest, hw₁, hrun⟩ := h.opens .receiver hletters
  obtain ⟨payload, hstop⟩ := hstop
  have htidy := h.tidy .receiver
  obtain ⟨w', events, hhandle, hw'⟩ := hw₁.handleUpdate_of_refused hsetup.ids_ne
    Role.receiver.index_lt Role.initiator.index_lt (by decide) (World.write depth)
    (by rw [update_self]; exact htidy.congr rfl rfl rfl) (by rw [update_self]; exact hoffered)
    (by rw [hparticipants]; rfl) hsame habsorb hstop
  rw [update_self, update_idem, update_of_ne (by decide)] at hw'
  have hdecode : Message.decode config.limits payload = .ok .stop :=
    Message.decode_of_encode hsetup.messageBytes_le hstop (by simp)
  refine .of_handleLetter hrun hhandle (.tooLarge hlarge) ?_
  exact of_update hw' (.of_not_live htidy.writing_eq (by simp) rfl)
    ((h.tidy .initiator).congr rfl rfl rfl) hlinked (.left rfl hrest hstart)
    (hother.receives_stop hdecode) fun _ => ⟨payload, hstop⟩

/-- An update changes the offered text as it changes the side behind it. -/
theorem handles_buffered (h : Agreeing bound config ids w) {o o' : Offered} {u : Update}
    (hlinked : Linked bound side otherSide)
    (hoffered : (w.seats Role.receiver.index).phase = .offered o)
    (hparticipants : o.participants = ⟨ids 1, ids 0, ids 1⟩)
    (habsorb : o.absorb? config.limits u.edit = some (.ok (), o'))
    (hparticipants' : o'.participants = ⟨ids 1, ids 0, ids 1⟩)
    (hreplica : side.replica = ⟨.joined o'.buffered, o'.buffer⟩)
    (hletters : (w.seats Role.receiver.index).mail config.limits =
      letters (ids 0) (.update u :: side.coming otherLeft))
    (hother : Represents config ids .initiator (w.seats Role.initiator.index) otherSide otherLeft
      false)
    (hstop : ∃ payload, Message.stop.encode config.limits = .ok payload) :
    Handles bound config ids w .receiver := by
  obtain ⟨rest, w₁, depth, hrest, hw₁, hrun⟩ := h.opens .receiver hletters
  have htidy := h.tidy .receiver
  obtain ⟨w', hhandle, hw'⟩ := hw₁.handleUpdate_of_offered (World.write depth)
    (by rw [update_self]; exact htidy.writing_eq) (by rw [update_self]; exact hoffered) habsorb
    Role.receiver.index_lt
  rw [update_self, update_idem] at hw'
  rw [hparticipants] at hhandle
  refine .of_handleLetter hrun hhandle .handled ?_
  exact h.of_update_one hw' (.of_not_live htidy.writing_eq (by simp)
    (htidy.apart (by simp [hoffered]))) hlinked
    (.offered rfl hparticipants' hreplica hrest) hother fun _ => hstop

/-- An update changes the shared document as it changes the side behind it. -/
theorem handles_taken (h : Agreeing bound config ids w) {l : Live} {u : Update} {side' : Side}
    (hlinked : Linked bound side' otherSide) (htakes : side.TakesIn u side')
    (hlive : (w.seats role.index).phase = .live l)
    (hparticipants : l.participants = ⟨ids role.index, ids 0, ids 1⟩)
    (hpeer : l.participants.other = ids role.other.index)
    (hstrategy : l.strategy = .backlog side.replica.backlog)
    (htext : (w.seats role.index).text = side.replica.text)
    (hletters : (w.seats role.index).mail config.limits =
      letters (ids role.other.index) (.update u :: side'.coming otherLeft))
    (hother : Represents config ids role.other (w.seats role.other.index) otherSide otherLeft false)
    (hstop : ∃ payload, Message.stop.encode config.limits = .ok payload) :
    Handles bound config ids w role := by
  obtain ⟨rest, w₁, depth, hrest, hw₁, hrun⟩ := h.opens role hletters
  obtain ⟨-, hcheck, e, hreceive, happly⟩ := htakes
  rw [← htext] at hcheck happly
  obtain ⟨w', s, l', hhandle, hs, hparticipants', hstrategy', hstext, hsqueue, hstidy, hw'⟩ :=
    hw₁.handleUpdate_of_live role.index_lt depth
      (by rw [update_self]; exact (h.tidy role).congr rfl rfl rfl)
      (by rw [update_self]; exact hlive) hstrategy (by rw [update_self]; exact hcheck) hreceive
      (by rw [update_self]; exact happly)
  rw [update_self, Seat.setQueue_queue] at hsqueue
  rw [update_idem] at hw'
  rw [hpeer] at hhandle
  have hmail : s.mail config.limits =
      letters (ids role.other.index) (side'.coming otherLeft) := by
    rw [Seat.mail, hsqueue]
    exact hrest
  have hcount : side'.replica.backlog.received ≤ Word.max := by
    obtain ⟨hle, edits, -, hbacklog⟩ := Backlog.receive?_eq_some_iff.1 hreceive
    rwa [hbacklog]
  refine .of_handleLetter hrun hhandle .handled ?_
  exact h.of_update_one hw' hstidy hlinked (.live hs (hparticipants'.trans hparticipants)
    hstrategy' hstext hcount hmail) hother fun _ => hstop

theorem handles_update_of_offered (h : Agreeing bound config ids w) (hsetup : Setup config ids)
    {o : Offered} {u : Update} {inbox : List Update} (hlinked : Linked bound side otherSide)
    (hoffered : (w.seats Role.receiver.index).phase = .offered o)
    (hparticipants : o.participants = ⟨ids 1, ids 0, ids 1⟩)
    (hreplica : side.replica = ⟨.joined o.buffered, o.buffer⟩)
    (hinbox : side.inbox = u :: inbox)
    (hletters : (w.seats Role.receiver.index).mail config.limits =
      letters (ids 0) (side.coming otherLeft))
    (hother : Represents config ids .initiator (w.seats Role.initiator.index) otherSide otherLeft
      false)
    (hroomy : (w.seats Role.receiver.index).Roomy) (hbound : bound ≤ Word.maxSigned)
    (hstop : ∃ payload, Message.stop.encode config.limits = .ok payload) :
    Handles bound config ids w .receiver := by
  have hbuffer := hroomy.2 o hoffered
  have hroomy' : side.replica.Roomy := by
    rw [hreplica]
    exact hbuffer
  have hcheck := hlinked.check?_eq hinbox hroomy'
  rw [hreplica] at hcheck
  obtain ⟨text, happly⟩ := Backlog.exists_apply_of_check?_joined hcheck hbuffer
  rcases Nat.lt_or_ge o.buffered Word.max with hcount | hcount
  · obtain ⟨side', htakes, hlinked'⟩ :=
      hlinked.exists_takesIn hinbox hroomy' hbound (by rw [hreplica]; exact hcount)
    rw [htakes.coming_eq] at hletters
    have hreplica' := htakes.replica_of_joined hreplica happly
    have habsorb := Offered.absorb?_of_apply config.limits happly hcount
    rcases Nat.lt_or_ge config.limits.documentChars text.length with hlarge | hsmall
    · rw [if_pos hlarge] at habsorb
      exact h.handles_tooLarge hsetup hlinked' hoffered hparticipants hlarge habsorb rfl
        hletters (Represents.start_not_mem_coming side' otherLeft) hother hstop
    · rw [if_neg (Nat.not_lt_of_le hsmall)] at habsorb
      exact h.handles_buffered hlinked' hoffered hparticipants habsorb hparticipants hreplica'
        hletters hother hstop
  · -- No side of an exchange follows, since the update cannot be counted.
    rw [Side.coming, hinbox] at hletters
    refine h.handles_full .receiver hletters ?_ (by rwa [hoffered])
    rw [hoffered]
    simp [Phase.receive?, hparticipants, Role.index, Role.other,
      Offered.absorb?_of_full config.limits happly hcount]

theorem handles_update_of_live (h : Agreeing bound config ids w) {l : Live} {u : Update}
    {inbox : List Update} (hlinked : Linked bound side otherSide)
    (hlive : (w.seats role.index).phase = .live l)
    (hparticipants : l.participants = ⟨ids role.index, ids 0, ids 1⟩)
    (hpeer : l.participants.other = ids role.other.index)
    (hstrategy : l.strategy = .backlog side.replica.backlog)
    (htext : (w.seats role.index).text = side.replica.text) (hinbox : side.inbox = u :: inbox)
    (hletters : (w.seats role.index).mail config.limits =
      letters (ids role.other.index) (side.coming otherLeft))
    (hother : Represents config ids role.other (w.seats role.other.index) otherSide otherLeft false)
    (hroomy : (w.seats role.index).Roomy) (hbound : bound ≤ Word.maxSigned)
    (hstop : ∃ payload, Message.stop.encode config.limits = .ok payload) :
    Handles bound config ids w role := by
  have hroomy' : side.replica.Roomy := by
    have houtstanding := hroomy.1
    rw [hlive, Phase.outstanding, hstrategy, htext] at houtstanding
    exact houtstanding
  have hcheck := hlinked.check?_eq hinbox hroomy'
  rcases Nat.lt_or_ge side.replica.backlog.received Word.max with hcount | hcount
  · obtain ⟨side', htakes, hlinked'⟩ :=
      hlinked.exists_takesIn hinbox hroomy' hbound hcount
    rw [htakes.coming_eq] at hletters
    exact h.handles_taken hlinked' htakes hlive hparticipants hpeer hstrategy htext hletters hother
      hstop
  · rw [Side.coming, hinbox] at hletters
    refine h.handles_full role hletters ?_ (by rwa [hlive, Phase.received, hstrategy])
    have hfull : side.replica.backlog.receive? u = none := by
      rw [Option.eq_none_iff_forall_ne_some]
      rintro ⟨e, b'⟩ hreceive
      have hroom := (Backlog.receive?_eq_some_iff.1 hreceive).1
      exact absurd hroom (Nat.not_lt_of_le hcount)
    simp [hlive, Phase.receive?, hpeer, Live.admit?, hstrategy, Strategy.check?, Strategy.receive?,
      htext, hcheck, hfull]

/-- Whatever is the next to arrive at a party, handling it goes well. -/
theorem handles (h : Agreeing bound config ids w) (hsetup : Setup config ids) (role : Role)
    (hroomy : (w.seats role.index).Roomy) (hbound : bound ≤ Word.maxSigned) :
    Handles bound config ids w role := by
  obtain ⟨side, otherSide, left, otherLeft, hlinked, hside, hother, hstop⟩ :=
    h.between.of_role role
  have hrepresents := hside
  cases hrepresents with
  | left hidle hletters hstart =>
      exact h.handles_left hlinked hidle hletters hstart hother fun h => hstop (.inr h)
  | awaiting hidle hsender hreceiver hreplica hletters =>
      exact h.handles_offer hlinked hidle hsender hreceiver hreplica hletters hother
        (hstop (.inl rfl))
  | offered hoffered hparticipants hreplica hletters =>
      cases hinbox : side.inbox with
      | cons u inbox =>
          exact h.handles_update_of_offered hsetup hlinked hoffered hparticipants hreplica hinbox
            hletters hother hroomy hbound (hstop (.inl rfl))
      | nil =>
          rw [Side.coming, hinbox, List.map_nil, List.nil_append] at hletters
          exact h.handles_end hsetup hlinked (by simp [hoffered]) hside hletters hother
  | live hlive hparticipants hstrategy htext hcount hletters =>
      obtain ⟨-, hpeer⟩ := hside.other_of_not_idle hsetup.ids_ne (by simp [hlive])
      rw [hlive, Phase.other, Option.some.injEq] at hpeer
      cases hinbox : side.inbox with
      | cons u inbox =>
          exact h.handles_update_of_live hlinked hlive hparticipants hpeer hstrategy htext hinbox
            hletters hother hroomy hbound (hstop (.inl rfl))
      | nil =>
          rw [Side.coming, hinbox, List.map_nil, List.nil_append] at hletters
          exact h.handles_end hsetup hlinked (by simp [hlive]) hside hletters hother

end Agreeing

end Session

end PairEdit
