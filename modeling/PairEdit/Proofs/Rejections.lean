import PairEdit.Proofs.AllOrNothing
import PairEdit.Proofs.Consumption

/-!
# Messages that are dropped

An error is a protocol error when the message itself was at fault: it cannot be read, breaks a
limit, claims a wrong sender or receiver, or comes from a peer outside the session.  Such a
message leaves everything as it was.  There is one exception.  An update to an offer that waits
for an answer is applied to the offered text before the text is held against the limit; when it
outgrows the limit, the offer ends, just as with an edit that does not fit.

A party that is not idle answers an offer, and the answer keeps to all limits that the offer
kept to: an offer carries two peers, and each of them alone takes more bytes than the answer.
-/

namespace PairEdit

open Cbor

/-! ## How long an offer is -/

namespace Envelope

theorem mem_of_single? {α : Type} {a : α} {as : List α} (h : single? as = some a) : a ∈ as := by
  rw [single?_eq_some_iff.1 h]
  exact List.mem_singleton_self a

theorem map_snd_of_fields? {entries : List (Item × Item)} {fields : Fields}
    (h : fields? entries = some fields) : fields.map Prod.snd = entries.map Prod.snd := by
  induction entries generalizing fields with
  | nil =>
      cases h
      rfl
  | cons entry rest ih =>
      obtain ⟨key, -, h⟩ := Option.bind_eq_some_iff.1 h
      obtain ⟨others, hothers, h⟩ := Option.bind_eq_some_iff.1 h
      cases h
      rw [List.map_cons, List.map_cons, ih hothers]

theorem map_snd_of_labels? {entries : List (Item × Item)} {labels : List (Bytes × Item)}
    (h : labels? entries = some labels) : labels.map Prod.snd = entries.map Prod.snd := by
  induction entries generalizing labels with
  | nil =>
      cases h
      rfl
  | cons entry rest ih =>
      obtain ⟨name, -, h⟩ := Option.bind_eq_some_iff.1 h
      obtain ⟨others, hothers, h⟩ := Option.bind_eq_some_iff.1 h
      cases h
      rw [List.map_cons, List.map_cons, ih hothers]

theorem mem_of_value? {fields : Fields} {name : String} {index : Option Nat} {i : Item}
    (h : fields.value? name index = some i) : i ∈ fields.map Prod.snd :=
  (List.filter_sublist.map Prod.snd).subset (mem_of_single? h)

theorem mem_of_labelled? {labels : List (Bytes × Item)} {name : String} {i : Item}
    (h : labelled? labels name = some i) : i ∈ labels.map Prod.snd :=
  (List.filter_sublist.map Prod.snd).subset (mem_of_single? h)

theorem length_of_bytes? {items : List Item} {bytes : Bytes} (h : bytes? items = some bytes) :
    bytes.length = items.length := by
  induction items generalizing bytes with
  | nil =>
      cases h
      rfl
  | cons item rest ih =>
      obtain ⟨b, -, h⟩ := Option.bind_eq_some_iff.1 h
      obtain ⟨bs, hbs, h⟩ := Option.bind_eq_some_iff.1 h
      cases h
      rw [List.length_cons, List.length_cons, ih hbs]

/-- A peer is an array of 32 items. -/
theorem lt_length_of_peer? {i : Item} {id : PeerId} (h : peer? i = some id) :
    32 < i.encode.length := by
  obtain ⟨items, hitems, h⟩ := Option.bind_eq_some_iff.1 h
  obtain ⟨bytes, hbytes, h⟩ := Option.bind_eq_some_iff.1 h
  unfold PeerId.ofBytes? at h
  split at h
  · next hlen =>
      have hlt := Item.length_lt_of_items? hitems
      rw [length_of_bytes? hbytes] at hlen
      omega
  · cases h

theorem lt_length_of_start? {senderId senderName receiverId documentText fileName : Item}
    {m : Message} (h : start? senderId senderName receiverId documentText fileName = some m) :
    32 < senderId.encode.length := by
  obtain ⟨id, hid, -⟩ := Option.bind_eq_some_iff.1 h
  exact lt_length_of_peer? hid

theorem exists_mem_of_ofFields? {kind : Bytes} {entries : List (Item × Item)} {offer : Start}
    (h : ofFields? kind entries = some (.start offer)) :
    ∃ e ∈ entries, 32 < e.2.encode.length := by
  unfold ofFields? at h
  split at h
  · cases h
  · split at h
    · obtain ⟨fields, hfields, h⟩ := Option.bind_eq_some_iff.1 h
      obtain ⟨senderId, hsender, h⟩ := Option.bind_eq_some_iff.1 h
      obtain ⟨senderName, -, h⟩ := Option.bind_eq_some_iff.1 h
      obtain ⟨receiverId, -, h⟩ := Option.bind_eq_some_iff.1 h
      obtain ⟨documentText, -, h⟩ := Option.bind_eq_some_iff.1 h
      obtain ⟨fileName, -, h⟩ := Option.bind_eq_some_iff.1 h
      have hmem := mem_of_value? hsender
      rw [map_snd_of_fields? hfields] at hmem
      obtain ⟨e, he, rfl⟩ := List.mem_map.1 hmem
      exact ⟨e, he, lt_length_of_start? h⟩
    · split at h
      · obtain ⟨fields, -, h⟩ := Option.bind_eq_some_iff.1 h
        iterate 10 obtain ⟨_, -, h⟩ := Option.bind_eq_some_iff.1 h
        cases h
      · cases h

theorem exists_mem_of_ofValues? {kind : Bytes} {values : List Item} {offer : Start}
    (h : ofValues? kind values = some (.start offer)) :
    ∃ i ∈ values, 32 < i.encode.length := by
  unfold ofValues? at h
  split at h
  · split at h
    · cases h
    · cases h
  · split at h
    · split at h
      · exact ⟨_, List.mem_cons_self, lt_length_of_start? h⟩
      · cases h
    · cases h

theorem lt_length_of_message? {i : Item} {offer : Start} (h : message? i = some (.start offer)) :
    32 < i.encode.length := by
  unfold message? at h
  split at h
  · next entries hentries =>
      obtain ⟨kindItem, -, h⟩ := Option.bind_eq_some_iff.1 h
      obtain ⟨kind, -, h⟩ := Option.bind_eq_some_iff.1 h
      dsimp only at h
      split at h
      · obtain ⟨e, he, hlt⟩ := exists_mem_of_ofFields? h
        have hle := Item.length_encode_le_of_mem_entries hentries (List.mem_filter.1 he).1
        omega
      · cases h
  · next kind values hentries hitems =>
      obtain ⟨kind, -, h⟩ := Option.bind_eq_some_iff.1 h
      split at h
      · obtain ⟨v, hv, hlt⟩ := exists_mem_of_ofValues? h
        have hle := Item.length_encode_le_of_mem_items hitems (List.mem_cons_of_mem _ hv)
        omega
      · cases h
  · cases h

theorem lt_length_of_ofItem? {i : Item} {version : Nat} {offer : Start}
    (h : ofItem? i = some ⟨version, .start offer⟩) : 32 < i.encode.length := by
  obtain ⟨entries, hentries, h⟩ := Option.bind_eq_some_iff.1 h
  obtain ⟨labels, hlabels, h⟩ := Option.bind_eq_some_iff.1 h
  split at h
  · obtain ⟨versionItem, -, h⟩ := Option.bind_eq_some_iff.1 h
    obtain ⟨version', -, h⟩ := Option.bind_eq_some_iff.1 h
    obtain ⟨value, hvalue, h⟩ := Option.bind_eq_some_iff.1 h
    obtain ⟨m, hm, h⟩ := Option.bind_eq_some_iff.1 h
    split at h
    · cases h
      have hmem := mem_of_labelled? hvalue
      rw [map_snd_of_labels? hlabels] at hmem
      obtain ⟨e, he, rfl⟩ := List.mem_map.1 hmem
      have hlt := lt_length_of_message? hm
      have hle := Item.length_encode_le_of_mem_entries hentries he
      have huntagged := Item.length_encode_untagged_le i
      omega
    · cases h
  · cases h

end Envelope

namespace Message

theorem ofBytes?_of_decode {limits : Limits} {m : Message} {payload : Bytes}
    (h : decode limits payload = .ok m) : payload.length ≤ limits.messageBytes ∧
      Envelope.ofBytes? payload = some ⟨protocolVersion, m⟩ := by
  unfold decode at h
  split at h
  · cases h
  · next hlen =>
      split at h
      · cases h
      · next e he =>
          split at h
          · cases h
          · next hversion =>
              split at h
              · cases h
              · cases h
                rw [he, ← Decidable.not_not.1 hversion]
                exact ⟨Nat.le_of_not_lt hlen, rfl⟩

/-- Whoever reads an offer may answer it: the answer is shorter, whatever way the offer is
spelled. -/
theorem encode_stop_of_decode_start {limits : Limits} {offer : Start} {payload : Bytes}
    (h : decode limits payload = .ok (.start offer)) :
    Message.stop.encode limits = .ok Message.stop.payload := by
  obtain ⟨hlen, henvelope⟩ := ofBytes?_of_decode h
  obtain ⟨⟨i, rest⟩, hread, hitem⟩ := Option.bind_eq_some_iff.1 henvelope
  have hlt := Envelope.lt_length_of_ofItem? hitem
  have hle := length_encode_le_of_read hread
  have hstop : Message.stop.payload.length = 29 := by decide
  exact encode_eq_ok_iff.2 ⟨rfl, rfl, by omega⟩

end Message

/-! ## What a dropped message leaves -/

namespace Session

open World

/-- Every part of the world is as it was. -/
structure Unchanged (w w' : World) : Prop where
  party : ∀ q, w'.party q = w.party q
  surfaces : w'.surfaces = w.surfaces
  network : w'.network = w.network
  scripts : w'.scripts = w.scripts
  underway : w'.underway = w.underway
  log : w'.log = w.log

/-- The payload is an update to the offer that waits for an answer, and fits its text; but with
the update the text is longer than a document may be. -/
def Outgrows (w : World) (p : Nat) (sender : PeerId) (payload : Bytes) (text : Text) : Prop :=
  ∃ o u, w.phase p = .offered o ∧ o.participants.initiator = sender ∧
    Message.decode (w.limits p) payload = .ok (.update u) ∧ u.edit.apply o.buffer = .ok text ∧
    (w.limits p).documentChars < text.length

variable {w w' : World} {p : Nat} {sender : PeerId} {reason : ShareError}

theorem Unchanged.refl (w : World) : Unchanged w w :=
  ⟨fun _ => rfl, rfl, rfl, rfl, rfl, rfl⟩

theorem Unchanged.setPhase {phase : Phase} (h : w.phase p = phase) :
    Unchanged w (w.setPhase p phase) where
  party q := by
    by_cases hqp : q = p
    · subst hqp
      rw [World.setPhase, party_modifyParty_self, ← h]
      rfl
    · exact party_setPhase_of_ne w phase hqp
  surfaces := rfl
  network := rfl
  scripts := rfl
  underway := rfl
  log := rfl

theorem isProtocolError_of_route {peer : PeerId} {cause : SyncError}
    (h : w.route p peer = .error cause) : (ShareError.sync cause).isProtocolError = false := by
  unfold route at h
  split at h
  · cases h
    rfl
  · cases h
    rfl
  · split at h
    · cases h
    · cases h
      rfl

/-- When a message keeps to the limits, what goes wrong with sending it is no protocol error. -/
theorem isProtocolError_of_send {peer : PeerId} {m : Message} {bytes : Bytes}
    (hencode : m.encode (w.limits p) = .ok bytes) (h : w.send p peer m = (.error reason, w')) :
    reason.isProtocolError = false := by
  rw [send_eq, hencode] at h
  cases hroute : w.route p peer with
  | error cause =>
      rw [hroute] at h
      cases h
      exact isProtocolError_of_route hroute
  | ok target =>
      rw [hroute] at h
      cases h

theorem Unchanged.of_handleStart {offer : Start} {payload : Bytes}
    (hdecode : Message.decode (w.limits p) payload = .ok (.start offer))
    (h : w.handleStart p sender offer = (.error reason, w'))
    (hprotocol : reason.isProtocolError = true) : Unchanged w w' := by
  obtain ⟨-, _, heq⟩ | ⟨-, -, ⟨-, heq⟩ | ⟨-, heq⟩⟩ := w.handleStart_cases p sender offer
  · cases heq.symm.trans h
    exact .refl w
  · cases heq.symm.trans h
  · have hlimits : (w.emit p (.refused sender)).limits p = w.limits p := by
      simp [World.limits, emit]
    have hencode := Message.encode_stop_of_decode_start hdecode
    rw [← hlimits] at hencode
    rw [isProtocolError_of_send hencode (heq.symm.trans h)] at hprotocol
    cases hprotocol

/-- The limit is the only thing for which the text of an offer gives a protocol error. -/
theorem outgrown_of_absorb? {limits : Limits} {o o' : Offered} {e : Edit}
    (h : o.absorb? limits e = some (.error reason, o'))
    (hprotocol : reason.isProtocolError = true) :
    ∃ text, e.apply o.buffer = .ok text ∧ limits.documentChars < text.length ∧
      reason = .sync (.invalidMessage (.pendingTooLarge text.length limits.documentChars)) := by
  obtain ⟨cause, ⟨⟩, -⟩ | ⟨text, happly, -, -, hresult⟩ := Offered.absorb?_cases h
  · cases hprotocol
  · split at hresult
    · next hlen => exact ⟨text, happly, hlen, Except.error.inj hresult⟩
    · cases hresult

theorem unchanged_or_outgrown_of_handleUpdate (harises : w.Arises) {write : Writer} {u : Update}
    (h : w.handleUpdate write p sender u = .ok (.error reason, w'))
    (hprotocol : reason.isProtocolError = true) :
    (Unchanged w w' ∧ (w.phase p).other ≠ some sender) ∨
      ∃ o text, w.phase p = .offered o ∧ o.participants.initiator = sender ∧
        u.edit.apply o.buffer = .ok text ∧ (w.limits p).documentChars < text.length ∧
        reason = .sync (.invalidMessage
          (.pendingTooLarge text.length (w.limits p).documentChars)) ∧
        TornDown p sender w w' := by
  cases (UpdateRun.of_handleUpdate h).2 with
  | outsider _ hother => exact .inl ⟨.setPhase rfl, hother⟩
  | endOffer o text n reason hoffered hother habsorb =>
      subst hother
      obtain ⟨text', happly, hlen, hreason⟩ := outgrown_of_absorb? habsorb hprotocol
      exact .inr ⟨o, text', hoffered, rfl, happly, hlen, hreason,
        .of_absorb harises hoffered text n⟩
  | endSession | refused => cases hprotocol

/-- After a protocol error everything is as it was: the phases of all parties with their offers,
backlogs and counters, the documents with their texts and listeners, the network, and the events
nobody has read.  The exception is an update with which an offer outgrows the limit: then the
offer is gone, and the host and the sender are told. -/
theorem protocol_error_changes_nothing (harises : w.Arises) {write : Writer} {payload : Bytes}
    (h : w.handleMessage write p sender payload = .ok (.error reason, w'))
    (hprotocol : reason.isProtocolError = true) :
    (Unchanged w w' ∧ ∀ text, ¬ Outgrows w p sender payload text) ∨
      ∃ text, Outgrows w p sender payload text ∧
        reason = .sync (.invalidMessage
          (.pendingTooLarge text.length (w.limits p).documentChars)) ∧
        TornDown p sender w w' := by
  unfold handleMessage at h
  have hother : (∀ u, Message.decode (w.limits p) payload ≠ .ok (.update u)) → Unchanged w w' →
      Unchanged w w' ∧ ∀ text, ¬ Outgrows w p sender payload text := by
    intro hupdate hunchanged
    refine ⟨hunchanged, fun text houtgrows => ?_⟩
    obtain ⟨o, u, -, -, hdecode, -⟩ := houtgrows
    exact hupdate u hdecode
  split at h
  · next cause hdecode =>
      cases h
      exact .inl (hother (by simp [hdecode]) (.refl w))
  · next offer hdecode =>
      have hunchanged := Unchanged.of_handleStart hdecode (Except.ok.inj h) hprotocol
      exact .inl (hother (by simp [hdecode]) hunchanged)
  · next u hdecode =>
      obtain ⟨hunchanged, hoffered⟩ | ⟨o, text, hphase, hsender, happly, hlen, hreason, htorn⟩ :=
        unchanged_or_outgrown_of_handleUpdate harises h hprotocol
      · refine .inl ⟨hunchanged, fun text houtgrows => ?_⟩
        obtain ⟨o, -, hphase, hsender, -⟩ := houtgrows
        exact hoffered (by rw [hphase, ← hsender]; rfl)
      · exact .inr ⟨text, ⟨o, u, hphase, hsender, hdecode, happly, hlen⟩, hreason, htorn⟩
  · cases h

/-- A third peer sends an edit to a session. -/
theorem protocol_error_changes_nothing_third_peer :
    let carol : PeerId := .ofByte 0xC0
    let payload := Message.payload (.update ⟨⟨0, 0, ['!']⟩, 0, 0⟩)
    ∃ w w' reason, w.Arises ∧
      w.handleMessage (World.write 0) 1 carol payload = .ok (.error reason, w') ∧
      reason.isProtocolError = true ∧ (w.phase 1).isSharing = true ∧ Unchanged w w' := by
  intro carol payload
  have hrun : ∃ w ∈ ((Pair.idle ['x'] .usual).world.runAll
        [.start 0 (.ofByte 0xA1) none (.ofByte 0xB0) [] 0, .handleNext 1, .accept 1 1]).toOption,
      ∃ r ∈ (w.handleMessage (World.write 0) 1 carol payload).toOption,
        r.1 = .error (.protocol carol .outsider) ∧ (w.phase 1).isSharing = true ∧
          (r.2.phase 1).isSharing = true := by
    decide +kernel
  obtain ⟨w, hw, ⟨result, w'⟩, hresult, hreason, hsharing, hsharing'⟩ := hrun
  dsimp only at hreason
  subst hreason
  have harises := (Arises.idle ['x'] .usual).runAll (eq_ok_of_mem_toOption hw)
  have hmessage := eq_ok_of_mem_toOption hresult
  refine ⟨w, w', _, harises, hmessage, rfl, hsharing, ?_⟩
  obtain ⟨hunchanged, -⟩ | ⟨text, -, -, htorn⟩ :=
    protocol_error_changes_nothing harises hmessage rfl
  · exact hunchanged
  · rw [htorn.phase] at hsharing'
    cases hsharing'

/-- Documents of at most four characters. -/
def shortTexts : Config := { Config.usual with limits := { Limits.usual with documentChars := 4 } }

/-- The offer of a text of three characters is gone after an update that adds two, although the
error is a protocol error. -/
theorem offer_ends_with_protocol_error :
    let alice : PeerId := .ofByte 0xA1
    let payload := Message.payload (.update ⟨⟨3, 0, ['d', 'e']⟩, 1, 0⟩)
    ∃ (w w' : World) (reason : ShareError), w.Arises ∧
      w.handleMessage (World.write 0) 1 alice payload = .ok (.error reason, w') ∧
      reason.isProtocolError = true ∧ (w.phase 1).status = .pending .receiver ∧
      (w'.phase 1).status = .idle ∧
      (w'.party 1).events = (w.party 1).events ++ [.ended alice .invalidOperation] := by
  intro alice payload
  have hrun : ∃ w ∈ ((Pair.idle ['a', 'b', 'c'] shortTexts).world.runAll
        [.start 0 alice none (.ofByte 0xB0) [] 0, .handleNext 1]).toOption,
      ∃ r ∈ (w.handleMessage (World.write 0) 1 alice payload).toOption,
        r.1 = .error (.sync (.invalidMessage (.pendingTooLarge 5 4))) ∧
          (w.phase 1).status = .pending .receiver ∧ (r.2.phase 1).status = .idle ∧
          (r.2.party 1).events = (w.party 1).events ++ [.ended alice .invalidOperation] := by
    decide +kernel
  obtain ⟨w, hw, ⟨result, w'⟩, hresult, hreason, hstatus⟩ := hrun
  dsimp only at hreason
  subst hreason
  have harises := (Arises.idle ['a', 'b', 'c'] shortTexts).runAll (eq_ok_of_mem_toOption hw)
  exact ⟨w, w', _, harises, eq_ok_of_mem_toOption hresult, rfl, hstatus⟩

end Session

end PairEdit
