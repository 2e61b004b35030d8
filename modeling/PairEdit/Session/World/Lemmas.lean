import PairEdit.Session.Release

/-!
# What the operations on a world change

Each operation changes one part of the world.  The lemmas here say what is
found there afterwards, and that the other parts are as before: the phase of a
party, the events its host has not read, the documents and the network.
-/

namespace PairEdit.Session.World

/-! ## Parties -/

@[simp]
theorem party_modifyParty_self (w : World) (p : Nat) (f : Party → Party) :
    (w.modifyParty p f).party p = f (w.party p) := by
  simp [modifyParty, party]

theorem party_modifyParty_of_ne (w : World) {p q : Nat} (f : Party → Party) (h : q ≠ p) :
    (w.modifyParty p f).party q = w.party q := by
  simp [modifyParty, party, Table.get_modify_of_ne _ _ h]

@[simp]
theorem document_modifyParty (w : World) (p : Nat) (f : Party → Party) (d : Nat) :
    (w.modifyParty p f).document d = w.document d := rfl

@[simp]
theorem network_modifyParty (w : World) (p : Nat) (f : Party → Party) :
    (w.modifyParty p f).network = w.network := rfl

@[simp]
theorem phase_setPhase_self (w : World) (p : Nat) (phase : Phase) :
    (w.setPhase p phase).phase p = phase := by
  simp [setPhase, World.phase]

theorem party_setPhase_of_ne (w : World) {p q : Nat} (phase : Phase) (h : q ≠ p) :
    (w.setPhase p phase).party q = w.party q :=
  party_modifyParty_of_ne w _ h

@[simp]
theorem events_setPhase_self (w : World) (p : Nat) (phase : Phase) :
    ((w.setPhase p phase).party p).events = (w.party p).events := by
  simp [setPhase]

@[simp]
theorem document_setPhase (w : World) (p : Nat) (phase : Phase) (d : Nat) :
    (w.setPhase p phase).document d = w.document d := rfl

@[simp]
theorem network_setPhase (w : World) (p : Nat) (phase : Phase) :
    (w.setPhase p phase).network = w.network := rfl

@[simp]
theorem phase_emit_self (w : World) (p : Nat) (event : Event) :
    (w.emit p event).phase p = w.phase p := by
  simp [emit, World.phase]

@[simp]
theorem events_emit_self (w : World) (p : Nat) (event : Event) :
    ((w.emit p event).party p).events = (w.party p).events ++ [event] := by
  simp [emit]

theorem party_emit_of_ne (w : World) {p q : Nat} (event : Event) (h : q ≠ p) :
    (w.emit p event).party q = w.party q :=
  party_modifyParty_of_ne w _ h

@[simp]
theorem document_emit (w : World) (p : Nat) (event : Event) (d : Nat) :
    (w.emit p event).document d = w.document d := rfl

@[simp]
theorem network_emit (w : World) (p : Nat) (event : Event) :
    (w.emit p event).network = w.network := rfl

/-! ## Documents -/

@[simp]
theorem document_setDocument_self (w : World) (d : Nat) (document : Document Subscriber) :
    (w.setDocument d document).document d = document := by
  simp [setDocument, World.document]

theorem document_setDocument_of_ne (w : World) {d e : Nat} (document : Document Subscriber)
    (h : e ≠ d) : (w.setDocument d document).document e = w.document e := by
  simp [setDocument, World.document, Table.get_modify_of_ne _ _ h]

@[simp]
theorem party_setDocument (w : World) (d : Nat) (document : Document Subscriber) (p : Nat) :
    (w.setDocument d document).party p = w.party p := rfl

@[simp]
theorem network_setDocument (w : World) (d : Nat) (document : Document Subscriber) :
    (w.setDocument d document).network = w.network := rfl

@[simp]
theorem party_unlisten (w : World) (d id p : Nat) : (w.unlisten d id).party p = w.party p := rfl

@[simp]
theorem network_unlisten (w : World) (d id : Nat) : (w.unlisten d id).network = w.network := rfl

@[simp]
theorem text_unlisten (w : World) (d id e : Nat) :
    ((w.unlisten d id).document e).text = (w.document e).text := by
  by_cases h : e = d
  · subst h; simp [unlisten, Document.unlisten]
  · simp [unlisten, document_setDocument_of_ne w _ h]

/-- A session that captures takes off its listener, and nothing else has one. -/
theorem detach_cases (w : World) (phase : Phase) :
    w.detach phase = w ∨ ∃ l id, phase = .live l ∧ l.capture = some id ∧
      w.detach phase = w.unlisten l.document id := by
  cases phase with
  | idle | offered => exact .inl rfl
  | live l =>
      cases hcapture : l.capture with
      | none => exact .inl (by simp only [detach, hcapture])
      | some id => exact .inr ⟨l, id, rfl, hcapture, by simp only [detach, hcapture]⟩

@[simp]
theorem party_detach (w : World) (phase : Phase) (p : Nat) :
    (w.detach phase).party p = w.party p := by
  obtain heq | ⟨l, id, -, -, heq⟩ := w.detach_cases phase
  · rw [heq]
  · rw [heq, party_unlisten]

@[simp]
theorem network_detach (w : World) (phase : Phase) : (w.detach phase).network = w.network := by
  obtain heq | ⟨l, id, -, -, heq⟩ := w.detach_cases phase
  · rw [heq]
  · rw [heq, network_unlisten]

@[simp]
theorem text_detach (w : World) (phase : Phase) (d : Nat) :
    ((w.detach phase).document d).text = (w.document d).text := by
  obtain heq | ⟨l, id, -, -, heq⟩ := w.detach_cases phase
  · rw [heq]
  · rw [heq, text_unlisten]

/-! ## Becoming idle -/

@[simp]
theorem phase_vacate_self (w : World) (p : Nat) : (w.vacate p).phase p = .idle := by
  simp only [vacate, World.phase, party_detach]
  exact phase_setPhase_self w p .idle

@[simp]
theorem events_vacate_self (w : World) (p : Nat) :
    ((w.vacate p).party p).events = (w.party p).events := by
  simp [vacate]

theorem party_vacate_of_ne (w : World) {p q : Nat} (h : q ≠ p) :
    (w.vacate p).party q = w.party q := by
  simp [vacate, party_setPhase_of_ne w _ h]

@[simp]
theorem network_vacate (w : World) (p : Nat) : (w.vacate p).network = w.network := by
  simp [vacate]

@[simp]
theorem text_vacate (w : World) (p d : Nat) :
    ((w.vacate p).document d).text = (w.document d).text := by
  simp [vacate]

/-! ## Capturing again -/

/-- A session that captures nothing captures again, if it is the one that was begun at the given
epoch. -/
theorem resume_cases (w : World) (p epoch : Nat) :
    (w.resume p epoch = w ∧ ∀ l, w.phase p = .live l → l.epoch = epoch → l.capture ≠ none) ∨
      ∃ l, w.phase p = .live l ∧ l.epoch = epoch ∧ l.capture = none ∧
        w.resume p epoch = (w.attach p epoch l.document).2.setPhase p
          (.live { l with capture := some (w.attach p epoch l.document).1 }) := by
  unfold resume
  split
  · next l hlive =>
      split
      · next hl => exact .inr ⟨l, hlive, hl.1, hl.2, rfl⟩
      · next hne =>
          refine .inl ⟨rfl, fun l' hlive' hepoch hnone => ?_⟩
          cases hlive.symm.trans hlive'
          exact hne ⟨hepoch, hnone⟩
  · next hlive => exact .inl ⟨rfl, fun l hlive' => absurd hlive' (hlive l)⟩

theorem resume_of_live {w : World} {p : Nat} {l : Live} (hlive : w.phase p = .live l)
    (hnone : l.capture = none) :
    w.resume p l.epoch = (w.attach p l.epoch l.document).2.setPhase p
      (.live { l with capture := some (w.attach p l.epoch l.document).1 }) := by
  simp only [resume, hlive, hnone, and_self, if_true]

/-! ## Sending -/

@[simp]
theorem party_transmit (w : World) (p : Nat) (peer : PeerId) (payload : Bytes) (q : Nat) :
    (w.transmit p peer payload).2.party q = w.party q := rfl

@[simp]
theorem document_transmit (w : World) (p : Nat) (peer : PeerId) (payload : Bytes) (d : Nat) :
    (w.transmit p peer payload).2.document d = w.document d := rfl

@[simp]
theorem party_send (w : World) (p : Nat) (peer : PeerId) (message : Message) (q : Nat) :
    (w.send p peer message).2.party q = w.party q := by
  unfold send
  split
  · rfl
  · split
    · rename_i h
      exact congrArg (fun r => r.2.party q) h.symm
    · rename_i h
      exact congrArg (fun r => r.2.party q) h.symm

@[simp]
theorem document_send (w : World) (p : Nat) (peer : PeerId) (message : Message) (d : Nat) :
    (w.send p peer message).2.document d = w.document d := by
  unfold send
  split
  · rfl
  · split
    · rename_i h
      exact congrArg (fun r => r.2.document d) h.symm
    · rename_i h
      exact congrArg (fun r => r.2.document d) h.symm

/-! ## Letting go -/

/-- To leave is to become idle, after which what only the session reached may be gone too. -/
theorem leave_cases (w : World) (p : Nat) :
    w.leave p = w.vacate p ∨ w.leave p = (w.vacate p).collect := by
  unfold leave
  split
  · split
    · exact .inr rfl
    · exact .inl rfl
  · exact .inl rfl

/-- A relation between a world and a later one that is kept when one thing is let go of: the hook
of a document, a party that nobody can call any more, an endpoint. -/
structure ReleaseClosed (R : World → World → Prop) : Prop where
  refl : ∀ w, R w w
  trans : ∀ {w w' w''}, R w w' → R w' w'' → R w w''
  unhook : ∀ w d, R w (w.setHook d none)
  vacate : ∀ {w p}, w.holdsParty p = false → R w (w.vacate p)
  release : ∀ w id, R w (w.releaseEndpoint id)

namespace ReleaseClosed

variable {R : World → World → Prop}

theorem forgetDocument (h : ReleaseClosed R) (w : World) (d : Nat) : R w (w.forgetDocument d) := by
  unfold World.forgetDocument
  split
  · exact h.refl w
  · exact h.unhook w d

theorem forgetParty (h : ReleaseClosed R) (w : World) (p : Nat) : R w (w.forgetParty p) := by
  unfold World.forgetParty
  split
  · exact h.refl w
  · next hheld =>
      exact h.trans (h.vacate (Bool.eq_false_iff.mpr hheld)) (h.release (w.vacate p) _)

theorem foldl (h : ReleaseClosed R) {op : World → Nat → World} (hop : ∀ w i, R w (op w i))
    (indices : List Nat) (w : World) : R w (indices.foldl op w) := by
  induction indices generalizing w with
  | nil => exact h.refl w
  | cons i rest ih => exact h.trans (hop w i) (ih _)

theorem sweeps (h : ReleaseClosed R) (n : Nat) (w : World) : R w (World.sweeps n w) := by
  induction n generalizing w with
  | zero => exact h.refl w
  | succ n ih =>
      have hsweep : R w w.sweep :=
        h.trans (h.foldl h.forgetDocument _ w) (h.foldl h.forgetParty _ _)
      exact h.trans hsweep (ih _)

theorem collect (h : ReleaseClosed R) (w : World) : R w w.collect := h.sweeps _ w

end ReleaseClosed

end PairEdit.Session.World
