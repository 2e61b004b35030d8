import PairEdit.Proofs.Seats

/-!
# What calls do at the seats

A seat is tidy between calls: its document is listened to exactly for its live session.
Each call of the host and each arrival is said as a change of the two seats.
-/

namespace PairEdit.Session

open Function

/-- Between calls a party does not write, and it listens to its document exactly while
it has a live session there. -/
structure Seat.Tidy (p : Nat) (s : Seat) : Prop where
  writing_eq : s.writing = false
  live : ∀ l, s.phase = .live l →
    l.document = p ∧ ∃ id, l.capture = some id ∧ s.captures = [(id, .capture p l.epoch)]
  apart : (∀ l, s.phase ≠ .live l) → s.captures = []

namespace Seat.Tidy

variable {p : Nat} {s : Seat}

/-- Tidiness is about the phase, the lock and the listeners only. -/
theorem congr {s' : Seat} (h : s.Tidy p) (hphase : s'.phase = s.phase)
    (hwriting : s'.writing = s.writing) (hcaptures : s'.captures = s.captures) : s'.Tidy p := by
  refine ⟨hwriting ▸ h.writing_eq, ?_, ?_⟩
  · rw [hphase, hcaptures]
    exact h.live
  · rw [hphase, hcaptures]
    exact h.apart

theorem of_not_live (hwriting : s.writing = false) (hphase : ∀ l, s.phase ≠ .live l)
    (hcaptures : s.captures = []) : s.Tidy p :=
  ⟨hwriting, fun l hl => absurd hl (hphase l), fun _ => hcaptures⟩

theorem of_live {l : Live} {id : Nat} (hwriting : s.writing = false) (hphase : s.phase = .live l)
    (hdocument : l.document = p) (hcapture : l.capture = some id)
    (hcaptures : s.captures = [(id, .capture p l.epoch)]) : s.Tidy p := by
  refine ⟨hwriting, ?_, fun hnone => absurd hphase (hnone l)⟩
  intro l' hl'
  rw [hphase] at hl'
  cases hl'
  exact ⟨hdocument, id, hcapture, hcaptures⟩

end Seat.Tidy

namespace Furnished

variable {ids : Nat → PeerId} {config : Config} {seats : Nat → Seat} {w : World}
variable {p q d epoch : Nat}

/-! ## Ending -/

/-- A party that leaves its phase captures nothing any more. -/
theorem leave (h : Furnished ids config seats w) (hp : p < 2) (htidy : (seats p).Tidy p) :
    Furnished ids config (update seats p (((seats p).setPhase .idle).setCaptures []))
      (w.leave p) := by
  have hkept : w.leave p = w.vacate p := by
    refine World.leave_eq_vacate w p ?_
    intro d hd
    rw [h.phase_eq] at hd
    cases hphase : (seats p).phase with
    | idle | offered =>
        rw [hphase] at hd
        cases hd
    | live l =>
        rw [hphase, Phase.document, Option.some.injEq] at hd
        rw [← hd, (htidy.live l hphase).1]
        exact (h.surface p hp).2
  have hidle := h.setPhase p .idle
  rw [hkept, World.vacate, h.phase_eq]
  cases hphase : (seats p).phase with
  | idle | offered =>
      have hcaptures := htidy.apart (by simp [hphase])
      have hsame : ((seats p).setPhase .idle).setCaptures [] = (seats p).setPhase .idle := by
        rw [← hcaptures]
        rfl
      rwa [hsame]
  | live l =>
      obtain ⟨hd, id, hcapture, hcaptures⟩ := htidy.live l hphase
      have hunlisten := hidle.unlisten p id
      simp only [update_self, update_idem, Seat.setPhase_captures, hcaptures] at hunlisten
      simpa [World.detach, hcapture, hd] using hunlisten

/-- A party that ends its session or its offer tells its host and the peer. -/
theorem quit (h : Furnished ids config seats w) (hids : ids 0 ≠ ids 1) (hp : p < 2) (hq : q < 2)
    (hne : p ≠ q) (htidy : (seats p).Tidy p) {payload : Bytes}
    (hstop : Message.stop.encode config.limits = .ok payload) (event : Event) :
    ∃ w', ((w.leave p).emit p event).send p (ids q) .stop = (.ok (), w') ∧
      Furnished ids config (update
        (update seats p ((((seats p).setPhase .idle).setCaptures []).setEvents
          ((seats p).events ++ [event])))
        q ((seats q).setQueue ((seats q).queue ++ [.message (ids p) payload]))) w' := by
  have hemit := (h.leave hp htidy).emit p event
  obtain ⟨w', hsend, hw'⟩ := hemit.send hids hp hq hstop
  refine ⟨w', hsend, ?_⟩
  simpa [update_of_ne hne.symm] using hw'

/-! ## The host's own listeners -/

/-- A listener of the host that only watches. -/
theorem listenHost (h : Furnished ids config seats w) (d : Nat) {script : List (List Call)}
    (hscript : ∀ calls ∈ script, calls = []) :
    Furnished ids config seats (w.listen d script).2 := by
  have hpush : Furnished ids config seats { w with scripts := (w.scripts.push script).2 } := by
    refine h.setScripts ?_
    intro i calls hcalls
    rw [Table.get_push] at hcalls
    split at hcalls
    · exact hscript calls hcalls
    · exact h.passive i calls hcalls
  have hlisten := hpush.listen d (.host (w.scripts.push script).1)
  have hsame : (seats d).setCaptures ((seats d).captures ++ []) = seats d := by
    rw [List.append_nil]
    rfl
  simp only [Subscriber.isCapture, Bool.false_eq_true, if_false, hsame, update_eq_self] at hlisten
  exact hlisten

theorem unlistenHost (h : Furnished ids config seats w) (d id : Nat)
    (hid : ∀ l ∈ (w.document d).listeners, l.1 = id → l.2.isCapture = false) :
    Furnished ids config seats (w.unlisten d id) := by
  have hkept : ((seats d).captures.filter fun l => l.1 != id) = (seats d).captures := by
    rw [List.filter_eq_self, ← h.captures_eq]
    intro l hl
    obtain ⟨hmem, hcapture⟩ := List.mem_filter.1 hl
    rw [bne_iff_ne]
    intro heq
    simp [hid l hmem heq] at hcapture
  have hsame : (seats d).setCaptures (seats d).captures = seats d := rfl
  have hunlisten := h.unlisten d id
  rwa [hkept, hsame, update_eq_self] at hunlisten

/-! ## Writing -/

/-- The host's listeners change nothing that matters. -/
theorem notifyOne_host (h : Furnished ids config seats w) (caller : Caller) (e : Edit) (i : Nat) :
    ∃ w', World.notifyOne caller e (.host i) w = .ok w' ∧ Furnished ids config seats w' := by
  simp only [World.notifyOne]
  cases hscript : w.scripts.get i with
  | nil => exact ⟨w, rfl, h⟩
  | cons now later =>
      have hnow : now = [] := h.passive i now (by simp [hscript])
      refine ⟨_, by rw [hnow]; rfl, h.setScripts ?_⟩
      intro j calls hcalls
      rw [Table.get_set] at hcalls
      split at hcalls
      · exact h.passive i calls (by simp [hscript, hcalls])
      · exact h.passive j calls hcalls

/-- Where no party listens, telling the listeners changes nothing that matters. -/
theorem notify_of_nil (h : Furnished ids config seats w) (caller : Caller) (e : Edit)
    (listeners : List (Nat × Subscriber))
    (hlisteners : (listeners.filter fun l => l.2.isCapture) = []) :
    ∃ w', Document.notify (World.notifyOne caller) e listeners w = .ok w' ∧
      Furnished ids config seats w' := by
  induction listeners generalizing w with
  | nil => exact ⟨w, rfl, h⟩
  | cons l rest ih =>
      obtain ⟨id, subscriber⟩ := l
      cases subscriber with
      | capture p epoch => simp [Subscriber.isCapture] at hlisteners
      | host i =>
          obtain ⟨w₁, hone, hw₁⟩ := h.notifyOne_host caller e i
          obtain ⟨w', hrest, hw'⟩ := ih hw₁ (by simpa [Subscriber.isCapture] using hlisteners)
          refine ⟨w', ?_, hw'⟩
          simp [Document.notify, hone, bind, Except.bind, hrest]

/-- Where one party listens, telling the listeners comes down to its capture. -/
theorem notify_of_capture (h : Furnished ids config seats w) {caller : Caller} {e : Edit}
    {listeners : List (Nat × Subscriber)} {w' : World} {id : Nat}
    (hlisteners : (listeners.filter fun l => l.2.isCapture) = [(id, .capture p epoch)])
    (hnotify : Document.notify (World.notifyOne caller) e listeners w = .ok w') :
    ∃ w₁ w₂, Furnished ids config seats w₁ ∧ w₁.capture p epoch e = .ok w₂ ∧
      ∀ seats', Furnished ids config seats' w₂ → Furnished ids config seats' w' := by
  induction listeners generalizing w with
  | nil => cases hlisteners
  | cons l rest ih =>
      obtain ⟨id', subscriber⟩ := l
      cases subscriber with
      | capture p' epoch' =>
          simp only [List.filter_cons, Subscriber.isCapture, if_true, List.cons.injEq,
            Prod.mk.injEq, Subscriber.capture.injEq] at hlisteners
          obtain ⟨⟨-, rfl, rfl⟩, hrest⟩ := hlisteners
          obtain ⟨w₂, hcapture, hnext⟩ := bind_eq_ok_iff.1 hnotify
          refine ⟨w, w₂, h, hcapture, ?_⟩
          intro seats' hw₂
          obtain ⟨w'', hnotify', hw''⟩ := hw₂.notify_of_nil caller e rest hrest
          rw [hnotify'] at hnext
          cases hnext
          exact hw''
      | host i =>
          obtain ⟨w₁, hone, hw₁⟩ := h.notifyOne_host caller e i
          obtain ⟨w₁', hone', hnext⟩ := bind_eq_ok_iff.1 hnotify
          rw [hone] at hone'
          cases hone'
          exact ih hw₁ (by simpa [Subscriber.isCapture] using hlisteners) hnext

theorem setText (h : Furnished ids config seats w) (d : Nat) (text : Text) :
    Furnished ids config (update seats d ((seats d).setText text))
      (w.setDocument d { w.document d with text := text }) := by
  have hsame : Session.captures { w.document d with text := text } = (seats d).captures :=
    h.captures_eq d
  have htext := h.setDocument d { w.document d with text := text }
  rwa [hsame] at htext

/-- Writing to a document without a hook: the text changes, then the listeners hear of
it. -/
theorem write_eq (h : Furnished ids config seats w) (hd : d < 2) (depth : Nat) (e : Edit) :
    ∃ caller, World.write depth d e w =
      match e.apply (seats d).text with
      | .error reason => .ok (.error (.invalidEdit reason), w)
      | .ok text => do
          let w ← Document.notify (World.notifyOne caller) e (w.document d).listeners
            (w.setDocument d { w.document d with text := text })
          return (.ok (), w) := by
  obtain ⟨caller, hwrite⟩ : ∃ caller, World.write depth = World.writeVia caller := by
    cases depth with
    | zero => exact ⟨_, rfl⟩
    | succ depth => exact ⟨_, rfl⟩
  refine ⟨caller, ?_⟩
  rw [hwrite, World.writeVia, (h.surface d hd).1, ← h.text_eq]
  rfl

theorem write_of_error (h : Furnished ids config seats w) (hd : d < 2) (depth : Nat) {e : Edit}
    {reason : EditError} (happly : e.apply (seats d).text = .error reason) :
    World.write depth d e w = .ok (.error (.invalidEdit reason), w) := by
  obtain ⟨caller, hwrite⟩ := h.write_eq hd depth e
  rw [hwrite, happly]

/-- A write to a document that no party listens to changes its text. -/
theorem write_of_nil (h : Furnished ids config seats w) (hd : d < 2) (depth : Nat) {e : Edit}
    {text : Text} (hcaptures : (seats d).captures = [])
    (happly : e.apply (seats d).text = .ok text) :
    ∃ w', World.write depth d e w = .ok (.ok (), w') ∧
      Furnished ids config (update seats d ((seats d).setText text)) w' := by
  obtain ⟨caller, hwrite⟩ := h.write_eq hd depth e
  obtain ⟨w', hnotify, hw'⟩ := (h.setText d text).notify_of_nil caller e
    (w.document d).listeners ((h.captures_eq d).trans hcaptures)
  refine ⟨w', ?_, hw'⟩
  rw [hwrite, happly]
  exact bind_eq_ok_iff.2 ⟨w', hnotify, rfl⟩

/-- A write to a document that one party listens to changes its text, and then the
party captures the edit. -/
theorem write_of_capture (h : Furnished ids config seats w) (hd : d < 2) {depth id : Nat}
    {e : Edit} {text : Text} {result : Except DocumentError Unit} {w' : World}
    (hcaptures : (seats d).captures = [(id, .capture p epoch)])
    (happly : e.apply (seats d).text = .ok text)
    (hwrite : World.write depth d e w = .ok (result, w')) :
    ∃ w₁ w₂, Furnished ids config (update seats d ((seats d).setText text)) w₁ ∧
      w₁.capture p epoch e = .ok w₂ ∧
      ∀ seats', Furnished ids config seats' w₂ → Furnished ids config seats' w' := by
  obtain ⟨caller, hwrite'⟩ := h.write_eq hd depth e
  rw [hwrite', happly] at hwrite
  obtain ⟨w'', hnotify, hresult⟩ := bind_eq_ok_iff.1 hwrite
  cases hresult
  exact (h.setText d text).notify_of_capture ((h.captures_eq d).trans hcaptures) hnotify

/-- What becomes of a captured edit: one that changes nothing is passed over, any other
one is registered, and then it is sent or its host is told. -/
theorem capture (h : Furnished ids config seats w) (hids : ids 0 ≠ ids 1) (hp : p < 2)
    (hq : q < 2) (hne : p ≠ q) {l : Live} {b : Backlog} {e : Edit} {w' : World}
    (hphase : (seats p).phase = .live l) (hstrategy : l.strategy = .backlog b)
    (hother : l.participants.other = ids q) (hcapture : w.capture p l.epoch e = .ok w') :
    e.isNoop = true ∧ Furnished ids config seats w' ∨
    ∃ u b', b.register? e = some (u, b') ∧
      ((∃ payload, (Message.update u).encode config.limits = .ok payload ∧
          Furnished ids config (update
            (update seats p ((seats p).setPhase (.live { l with strategy := .backlog b' })))
            q ((seats q).setQueue ((seats q).queue ++ [.message (ids p) payload]))) w') ∨
        ∃ s reason, s.events = (seats p).events ++ [.sendFailed (ids q) reason] ∧
          Furnished ids config (update seats p s) w') := by
  rw [World.capture, h.phase_eq, hphase] at hcapture
  dsimp only at hcapture
  cases hnoop : e.isNoop with
  | true =>
      simp only [hnoop, or_true, if_true] at hcapture
      cases hcapture
      exact .inl ⟨rfl, h⟩
  | false =>
      simp only [hnoop, ne_eq, not_true_eq_false, Bool.false_eq_true, or_false, if_false]
        at hcapture
      obtain ⟨⟨u, strategy⟩, hregister, hcapture⟩ := bind_eq_ok_iff.1 hcapture
      rw [orOverflow_eq_ok_iff, hstrategy, Strategy.register?, Option.map_eq_some_iff]
        at hregister
      obtain ⟨⟨u', b'⟩, hregister, heq⟩ := hregister
      cases heq
      have hset := h.setPhase p (.live { l with strategy := .backlog b' })
      refine .inr ⟨u, b', hregister, ?_⟩
      simp only [hother] at hcapture
      cases hencode : (Message.update u).encode config.limits with
      | ok payload =>
          obtain ⟨w'', hsend, hw''⟩ := hset.send hids hp hq hencode
          rw [hsend] at hcapture
          cases hcapture
          rw [update_of_ne hne.symm] at hw''
          exact .inl ⟨payload, rfl, hw''⟩
      | error reason =>
          rw [hset.send_of_error hp hencode] at hcapture
          cases hcapture
          have hemit := hset.emit p (.sendFailed (ids q) (.sync reason))
          rw [update_idem, update_self] at hemit
          exact .inr ⟨_, _, rfl, hemit⟩

/-- After a write the document is listened to again. -/
theorem resume (h : Furnished ids config seats w) {l : Live}
    (hphase : (seats p).phase = .live l) (hdocument : l.document = p)
    (hcapture : l.capture = none) :
    ∃ id, Furnished ids config (update seats p
      (((seats p).setPhase (.live { l with capture := some id })).setCaptures
        ((seats p).captures ++ [(id, .capture p l.epoch)]))) (w.resume p l.epoch) := by
  subst hdocument
  have hattach := (h.attach l.document l.epoch l.document).setPhase l.document
    (.live { l with capture := some (w.attach l.document l.epoch l.document).1 })
  refine ⟨(w.attach l.document l.epoch l.document).1, ?_⟩
  rw [update_self, update_idem] at hattach
  rw [World.resume_of_live (by rw [h.phase_eq, hphase]) hcapture]
  exact hattach

end Furnished

end PairEdit.Session
