import PairEdit.Proofs.Interruptions
import PairEdit.Proofs.Replies
import PairEdit.Proofs.WholeSession

/-!
# Edits made in reaction

While an edit of the peer is written nothing is captured, so that the edit is not sent back.
The host's listeners are told of it in this time.  When one of them edits the document in
reaction, that edit is not captured either: the session goes on as if it had not been made, and
when nothing is on the way any more the peer has the text as it was before the reaction.
-/

namespace PairEdit.Session

open World

variable {reactive : Nat → Prop} {w w' w'' v : World} {p d depth n : Nat} {e : Edit}
variable {P : Edit → Prop}

/-! ## Messages taken in -/

/-- A call makes a party take in a message: a host hands it over, or it is the next one to
arrive.  The call answers with what came of it, and this is the world without the message. -/
inductive Takes (p : Nat) (sender : PeerId) (payload : Bytes) (w : World) :
    Call → (Except ShareError Unit → Outcome) → World → Prop where
  | given : Takes p sender payload w (.handleMessage p sender payload) .shared w
  | next (h : (w.receive p).1 = .ok (some (.message sender payload))) :
      Takes p sender payload w (.handleNext p) (fun result => .next (.ok (some result)))
        (w.receive p).2

namespace Takes

variable {sender : PeerId} {payload : Bytes} {c : Call} {answer : Except ShareError Unit → Outcome}

theorem perform_eq_ok_iff (h : Takes p sender payload w c answer v) {write : Writer}
    {o : Outcome} : perform write c w = .ok (o, w') ↔
      ∃ result, v.handleMessage write p sender payload = .ok (result, w') ∧ o = answer result := by
  cases h with
  | given =>
      simp only [perform, bind_eq_ok_iff, Prod.exists, pure, Except.pure, Except.ok.injEq,
        Prod.mk.injEq]
      grind
  | next h =>
      obtain ⟨taken, network⟩ : ∃ n, (w.receive p) = (.ok (some (.message sender payload)), n) :=
        ⟨_, Prod.ext h rfl⟩
      simp only [perform, World.handleNext, network, World.handleArrival, bind_eq_ok_iff,
        Prod.exists, pure, Except.pure, Except.ok.injEq, Prod.mk.injEq]
      grind

theorem answer_injective (h : Takes p sender payload w c answer v)
    {result result' : Except ShareError Unit} (heq : answer result = answer result') :
    result = result' := by
  cases h <;> cases heq <;> rfl

/-- Nothing but the network knows of the message. -/
theorem exists_network (h : Takes p sender payload w c answer v) :
    ∃ network, v = { w with network := network } := by
  cases h with
  | given => exact ⟨w.network, rfl⟩
  | next => exact ⟨_, rfl⟩

end Takes

/-! ## Edits while nobody captures -/

/-- A document has no hook, and all that the host's listeners will do is to edit it in a certain
way. -/
structure World.Redrafting (w : World) (d : Nat) (P : Edit → Prop) : Prop where
  hook : (w.surfaces.get d).hook = none
  edits : ∀ id i, (id, .host i) ∈ (w.document d).listeners → ∀ now ∈ w.scripts.get i, ∀ c ∈ now,
    ∃ e, c = .edit d e ∧ P e

/-- Nobody captures the edits of the host's listeners. -/
structure World.Unheard (w : World) (d : Nat) (P : Edit → Prop) : Prop
    extends w.Redrafting d P where
  captures : captures (w.document d) = []

/-- Whether an edit was made. -/
def Outcome.isMade : Outcome → Bool
  | .edited (.ok ()) => true
  | _ => false

/-- A document has been edited in a certain way, and no more has been done.  The log tells which
edits were made, but for the last `n`. -/
structure Redrafted (d : Nat) (P : Edit → Prop) (n : Nat) (w w' : World) : Prop where
  parties : w'.parties = w.parties
  network : w'.network = w.network
  underway : w'.underway = w.underway
  others : ∀ d' ≠ d, w'.surfaces.get d' = w.surfaces.get d'
  surface : w'.surfaces.get d =
    { w.surfaces.get d with document := { w.document d with text := (w'.document d).text } }
  edits : ∃ outcomes edits, w'.log = w.log ++ outcomes ∧
    edits.length = outcomes.countP Outcome.isMade + n ∧
    Edit.applyAll edits (w.document d).text = .ok (w'.document d).text ∧ ∀ e ∈ edits, P e

/-- How many calls of the host's listeners are still to come. -/
def World.turns (w : World) : Nat := w.scripts.slots.flatten.length

/-- The host's listeners have edited a document, and they have no more to do than before. -/
structure Reacted (d : Nat) (P : Edit → Prop) (n : Nat) (w w' : World) : Prop
    extends Redrafted d P n w w' where
  scripts : ∀ i, ∀ now ∈ w'.scripts.get i, now ∈ w.scripts.get i
  turns : w'.turns ≤ w.turns

namespace Redrafted

variable {m : Nat}

/-- Only what the host's listeners have to do may be different. -/
theorem of_scripts (d : Nat) (P : Edit → Prop) (w : World) (scripts : Table (List (List Call))) :
    Redrafted d P 0 w { w with scripts := scripts } where
  parties := rfl
  network := rfl
  underway := rfl
  others _ _ := rfl
  surface := rfl
  edits := ⟨[], [], (List.append_nil _).symm, rfl, rfl, nofun⟩

theorem trans (h : Redrafted d P m w w') (h' : Redrafted d P n w' w'') :
    Redrafted d P (m + n) w w'' where
  parties := h'.parties.trans h.parties
  network := h'.network.trans h.network
  underway := h'.underway.trans h.underway
  others d' hd := (h'.others d' hd).trans (h.others d' hd)
  surface := by
    rw [h'.surface, World.document, h.surface]
  edits := by
    obtain ⟨told, first, hlog, hfirst, happly, hall⟩ := h.edits
    obtain ⟨told', last, hlog', hlast, happly', hall'⟩ := h'.edits
    refine ⟨told ++ told', first ++ last, by rw [hlog', hlog, List.append_assoc], ?_,
      Edit.applyAll_append_eq_ok_iff.2 ⟨_, happly, happly'⟩, fun e he => ?_⟩
    · rw [List.length_append, List.countP_append, hfirst, hlast]
      omega
    · exact (List.mem_append.1 he).elim (hall e) (hall' e)

theorem hook_eq (h : Redrafted d P n w w') :
    (w'.surfaces.get d).hook = (w.surfaces.get d).hook := by
  rw [h.surface]

theorem document_eq (h : Redrafted d P n w w') (d' : Nat) :
    w'.document d' = { w.document d' with text := (w'.document d').text } := by
  by_cases hd : d' = d
  · subst hd
    exact congrArg Surface.document h.surface
  · rw [World.document, h.others d' hd]
    rfl

/-- An edit of the kind is made. -/
theorem setText {text : Text} (he : P e) (happly : e.apply (w.document d).text = .ok text) :
    Redrafted d P 1 w (w.setDocument d { w.document d with text := text }) where
  parties := rfl
  network := rfl
  underway := rfl
  others _ hd := Table.get_modify_of_ne _ _ hd
  surface := by
    rw [document_setDocument_self]
    exact Table.get_modify_self ..
  edits := by
    refine ⟨[], [e], (List.append_nil _).symm, rfl, ?_, fun r hr => List.mem_singleton.1 hr ▸ he⟩
    rw [Edit.applyAll_singleton, happly, document_setDocument_self]

end Redrafted

namespace Reacted

variable {m : Nat}

theorem refl (d : Nat) (P : Edit → Prop) (w : World) : Reacted d P 0 w w where
  toRedrafted := .of_scripts d P w w.scripts
  scripts _ _ h := h
  turns := Nat.le_refl _

theorem trans (h : Reacted d P m w w') (h' : Reacted d P n w' w'') : Reacted d P (m + n) w w'' where
  toRedrafted := h.toRedrafted.trans h'.toRedrafted
  scripts i now hnow := h.scripts i now (h'.scripts i now hnow)
  turns := h'.turns.trans h.turns

/-- What came of an edit is put into the log. -/
theorem note {outcome : Outcome} (h : Reacted d P ([outcome].countP Outcome.isMade) w w') :
    Reacted d P 0 w { w' with log := w'.log ++ [outcome] } where
  parties := h.parties
  network := h.network
  underway := h.underway
  others := h.others
  surface := h.surface
  edits := by
    obtain ⟨told, edits, hlog, hlength, hedits⟩ := h.edits
    refine ⟨told ++ [outcome], edits, ?_, ?_, hedits⟩
    · rw [hlog, List.append_assoc]
    · rw [hlength, List.countP_append, Nat.add_zero]
  scripts := h.scripts
  turns := h.turns

theorem setText {text : Text} (he : P e) (happly : e.apply (w.document d).text = .ok text) :
    Reacted d P 1 w (w.setDocument d { w.document d with text := text }) where
  toRedrafted := .setText he happly
  scripts _ _ h := h
  turns := Nat.le_refl _

theorem unheard (h : Reacted d P n w w') (hw : w.Unheard d P) : w'.Unheard d P where
  hook := h.hook_eq.trans hw.hook
  edits id i hmem now hnow := by
    rw [h.document_eq] at hmem
    exact hw.edits id i hmem now (h.scripts i now hnow)
  captures := by
    rw [h.document_eq]
    exact hw.captures

end Reacted

/-- A listener of the host uses up what it does in the next call. -/
theorem World.turns_useUp {i : Nat} {now : List Call} {later : List (List Call)}
    (hscript : w.scripts.get i = now :: later) :
    { w with scripts := w.scripts.set i later }.turns + 1 = w.turns := by
  have hlt : i < w.scripts.slots.length := by
    refine Nat.lt_of_not_le fun hle => ?_
    rw [Table.get, List.getElem?_eq_none hle] at hscript
    cases hscript
  have hget : w.scripts.slots[i] = now :: later := by
    rw [← hscript, Table.get, List.getElem?_eq_getElem hlt, Option.getD_some]
  have hsplit : w.turns = (w.scripts.slots.take i ++
      (now :: later) :: w.scripts.slots.drop (i + 1)).flatten.length := by
    rw [← hget, ← List.drop_eq_getElem_cons hlt, List.take_append_drop, World.turns]
  rw [hsplit, World.turns, Table.set, if_pos hlt, List.set_eq_take_append_cons_drop, if_pos hlt]
  simp only [List.flatten_append, List.flatten_cons, List.length_append, List.length_cons]
  omega

theorem Reacted.useUp {i : Nat} {now : List Call} {later : List (List Call)}
    (hscript : w.scripts.get i = now :: later) :
    Reacted d P 0 w { w with scripts := w.scripts.set i later } where
  toRedrafted := .of_scripts d P w _
  scripts j round hround := by
    rw [Table.get_set] at hround
    split at hround
    · next hj =>
        rw [hj, hscript]
        exact List.mem_cons_of_mem _ hround
    · exact hround
  turns := (Nat.le_succ _).trans (World.turns_useUp hscript).le

/-- Edits in reaction come to an end when they may be nested as deep as there are calls of
listeners to come. -/
def Settles (d : Nat) (P : Edit → Prop) (n : Nat) (caller : Caller) : Prop :=
  ∀ ⦃w : World⦄ ⦃e : Edit⦄, w.Unheard d P → P e → w.turns < n →
    ∃ outcome w', caller (.edit d e) w = .ok (outcome, w') ∧
      Reacted d P ([outcome].countP Outcome.isMade) w w'

namespace Settles

variable {caller : Caller}

theorem reactAll (h : Settles d P n caller) {calls : List Call} (hw : w.Unheard d P)
    (hcalls : ∀ c ∈ calls, ∃ e, c = .edit d e ∧ P e) (hturns : w.turns < n) :
    ∃ w', World.reactAll caller calls w = .ok w' ∧ Reacted d P 0 w w' := by
  induction calls generalizing w with
  | nil => exact ⟨w, rfl, .refl d P w⟩
  | cons c rest ih =>
      obtain ⟨e, rfl, he⟩ := hcalls c List.mem_cons_self
      obtain ⟨outcome, w₁, hcall, hone⟩ := h hw he hturns
      obtain ⟨w', hrest, hlast⟩ := ih (hone.note.unheard hw)
        (fun c hc => hcalls c (List.mem_cons_of_mem _ hc)) (hone.turns.trans_lt hturns)
      exact ⟨w', bind_eq_ok_iff.2 ⟨_, hcall, hrest⟩, hone.note.trans hlast⟩

theorem notifyOne (h : Settles d P n caller) {id i : Nat} (hw : w.Unheard d P)
    (hmem : (id, .host i) ∈ (w.document d).listeners) (hturns : w.turns ≤ n) :
    ∃ w', World.notifyOne caller e (.host i) w = .ok w' ∧ Reacted d P 0 w w' := by
  cases hscript : w.scripts.get i with
  | nil => exact ⟨w, by simp only [World.notifyOne, hscript], .refl d P w⟩
  | cons now later =>
      have huse : Reacted d P 0 w _ := .useUp hscript
      have hturn := World.turns_useUp hscript
      obtain ⟨w', hnow, hlast⟩ := h.reactAll (huse.unheard hw)
        (fun c hc => hw.edits id i hmem now (hscript ▸ List.mem_cons_self) c hc) (by omega)
      exact ⟨w', by simpa only [World.notifyOne, hscript] using hnow, huse.trans hlast⟩

theorem notify (h : Settles d P n caller) (hw : w.Unheard d P)
    (listeners : List (Nat × Subscriber))
    (hlisteners : ∀ l ∈ listeners, l ∈ (w.document d).listeners) (hturns : w.turns ≤ n) :
    ∃ w', Document.notify (World.notifyOne caller) e listeners w = .ok w' ∧
      Reacted d P 0 w w' := by
  induction listeners generalizing w with
  | nil => exact ⟨w, rfl, .refl d P w⟩
  | cons l rest ih =>
      obtain ⟨id, subscriber⟩ := l
      have hmem := hlisteners _ List.mem_cons_self
      cases subscriber with
      | capture q epoch =>
          exact absurd rfl (List.filter_eq_nil_iff.1 hw.captures _ hmem)
      | host i =>
          obtain ⟨w₁, hone, hfirst⟩ := h.notifyOne hw hmem hturns
          have hrest : ∀ l ∈ rest, l ∈ (w₁.document d).listeners := fun l hl => by
            rw [hfirst.document_eq]
            exact hlisteners l (List.mem_cons_of_mem _ hl)
          obtain ⟨w', hnotify, hlast⟩ :=
            ih (hfirst.unheard hw) hrest (hfirst.turns.trans hturns)
          exact ⟨w', bind_eq_ok_iff.2 ⟨w₁, hone, hnotify⟩, hfirst.trans hlast⟩

/-- An edit that the document takes is written, and then there are the reactions to it. -/
theorem writeVia (h : Settles d P n caller) (hw : w.Unheard d P) (hturns : w.turns ≤ n)
    {text : Text} (happly : e.apply (w.document d).text = .ok text) :
    ∃ w', World.writeVia caller d e w = .ok (.ok (), w') ∧
      Reacted d P 0 (w.setDocument d { w.document d with text := text }) w' := by
  -- That the text is another one does not matter to what the listeners will do.
  have hset : (w.setDocument d { w.document d with text := text }).Unheard d P := by
    refine ⟨⟨(hook_setDocument w d d _).trans hw.hook, fun id i hmem => hw.edits id i ?_⟩, ?_⟩
    · rwa [document_setDocument_self] at hmem
    · rw [document_setDocument_self]
      exact hw.captures
  obtain ⟨w', hnotify, hlast⟩ := h.notify hset (w.document d).listeners
    (fun l hl => by rwa [document_setDocument_self]) hturns
  refine ⟨w', ?_, hlast⟩
  exact writeVia_of_hookRun (.none hw.hook) (fun hook hsome => by
    rw [hw.hook] at hsome
    cases hsome) happly hnotify

end Settles

theorem settles_nestedCaller (d : Nat) (P : Edit → Prop) (depth : Nat) :
    Settles d P depth (nestedCaller depth) := by
  induction depth with
  | zero => exact fun w _ _ _ hturns => absurd hturns (Nat.not_lt_zero w.turns)
  | succ depth ih =>
      intro w e hw he hturns
      cases happly : e.apply (w.document d).text with
      | error reason =>
          have hrefused : World.write depth d e w = .ok (.error (.invalidEdit reason), w) := by
            have hsite : e.apply ((site d).get w).text = .error reason := happly
            rw [write_eq, World.writeVia, hw.hook]
            simp only [World.commit, Document.replaceIn, hsite]
          exact ⟨.edited (.error (.invalidEdit reason)), w, bind_eq_ok_iff.2 ⟨_, hrefused, rfl⟩,
            .refl d P w⟩
      | ok text =>
          obtain ⟨w', hwrite, hlast⟩ := ih.writeVia hw (Nat.le_of_lt_succ hturns) happly
          refine ⟨.edited (.ok ()), w', ?_, (Reacted.setText he happly).trans hlast⟩
          rw [← write_eq] at hwrite
          exact bind_eq_ok_iff.2 ⟨_, hwrite, rfl⟩

/-! ## The session meanwhile -/

theorem World.text_attach (w : World) (p epoch d' d : Nat) :
    ((w.attach p epoch d').2.document d).text = (w.document d).text := by
  by_cases hd : d = d'
  · subst hd
    have hself : (w.attach p epoch d).2.document d =
      ((w.document d).listen (.capture p epoch)).2 := document_setDocument_self ..
    rw [hself]
    rfl
  · exact congrArg Document.text (document_setDocument_of_ne w _ hd)

namespace Redrafted

theorem modifyParty (h : Redrafted d P n w w') (p : Nat) (f : Party → Party) :
    Redrafted d P n (w.modifyParty p f) (w'.modifyParty p f) where
  parties := congrArg (·.modify p f) h.parties
  network := h.network
  underway := h.underway
  others := h.others
  surface := h.surface
  edits := h.edits

theorem tell (h : Redrafted d P n w w') (p : Nat) (news : Option Event) :
    Redrafted d P n (w.tell p news) (w'.tell p news) := by
  cases news with
  | none => exact h
  | some event => exact h.modifyParty p _

theorem attach (h : Redrafted d P n w w') (p epoch d' : Nat) :
    (w'.attach p epoch d').1 = (w.attach p epoch d').1 ∧
      Redrafted d P n (w.attach p epoch d').2 (w'.attach p epoch d').2 := by
  have hself : ∀ v : World, (v.attach p epoch d').2.surfaces.get d' =
      { v.surfaces.get d' with document := ((v.document d').listen (.capture p epoch)).2 } :=
    fun v => Table.get_modify_self ..
  have hne : ∀ v : World, ∀ d'' ≠ d', (v.attach p epoch d').2.surfaces.get d'' =
      v.surfaces.get d'' := fun v d'' hd => Table.get_modify_of_ne _ _ hd
  refine ⟨?_, h.parties, h.network, h.underway, fun d'' hd => ?_, ?_, ?_⟩
  · change (w'.document d').nextId = (w.document d').nextId
    rw [h.document_eq]
  · by_cases hd' : d'' = d'
    · subst hd'
      rw [hself, hself, World.document, World.document, h.others d'' hd]
    · rw [hne w' d'' hd', hne w d'' hd', h.others d'' hd]
  · rw [text_attach]
    by_cases hd : d = d'
    · subst hd
      have hsurface := h.surface
      have hdocument := h.document_eq d
      have hattached : (w.attach p epoch d).2.document d =
        ((w.document d).listen (.capture p epoch)).2 := congrArg Surface.document (hself w)
      rw [hself w', hself w, hattached]
      generalize (w'.document d).text = text at hsurface hdocument ⊢
      rw [hdocument, hsurface]
      rfl
    · rw [World.document, hne w' d hd, hne w d hd]
      exact h.surface
  · rw [text_attach, text_attach]
    exact h.edits

/-- Capture goes on as if nothing had been edited. -/
theorem resume (h : Redrafted d P n w w') (p epoch : Nat) :
    Redrafted d P n (w.resume p epoch) (w'.resume p epoch) := by
  have hphase : w'.phase p = w.phase p := by rw [World.phase, World.party, h.parties]; rfl
  unfold World.resume
  rw [hphase]
  split
  · next l hlive =>
      split
      · obtain ⟨hid, hattached⟩ := h.attach p epoch l.document
        dsimp only
        rw [hid]
        exact hattached.modifyParty p _
      · exact h
  · exact h

end Redrafted

/-- When an edit of the peer is written, a party captures again, and tells its host that the peer
has accepted if the host does not know. -/
def World.goOn (w : World) (p : Nat) (l : Live) : World :=
  let news := if l.confirmed then none else some (.confirmed l.participants.other)
  ((w.resume p l.epoch).tell p news).setWriting p false

section Frame

variable {α : Type} (π : World → α)

/-- What is neither of the party nor a matter of listeners stays when the party pauses. -/
theorem World.apply_suspend_eq (hparty : ∀ w f, π (w.modifyParty p f) = π w)
    (hunlisten : ∀ w d id, π (w.unlisten d id) = π w) (w : World) (l : Live) (s : Strategy) :
    π ((w.suspend p l s).setWriting p true) = π w := by
  rw [World.setWriting, hparty, World.suspend, World.detach]
  split
  · rw [hunlisten, World.setPhase, hparty]
  · rw [World.setPhase, hparty]

/-- It also stays when the party goes on. -/
theorem World.apply_goOn_eq (hparty : ∀ w f, π (w.modifyParty p f) = π w)
    (hattach : ∀ w epoch d, π (w.attach p epoch d).2 = π w) (w : World) (l : Live) :
    π (w.goOn p l) = π w := by
  have htell : ∀ (w : World) (news : Option Event), π (w.tell p news) = π w := by
    rintro w (_ | event)
    · rfl
    · exact hparty w _
  rw [World.goOn, World.setWriting, hparty, htell]
  obtain ⟨heq, -⟩ | ⟨l', -, -, -, heq⟩ := w.resume_cases p l.epoch
  · rw [heq]
  · rw [heq]
    exact (hparty _ _).trans (hattach _ _ _)

end Frame

theorem Redrafted.goOn (h : Redrafted d P n w w') (p : Nat) (l : Live) :
    Redrafted d P n (w.goOn p l) (w'.goOn p l) :=
  ((h.resume p l.epoch).tell p _).modifyParty p _

/-- The host's listeners have nothing to do. -/
def World.withoutScripts (w : World) : World := { w with scripts := .empty }

/-- A party has written an edit of the peer.  What the host's listeners did then made no
difference but to the text: what came to be without it was that the document was edited, and
nothing was sent. -/
structure Unsent (p d : Nat) (e : Edit) (P : Edit → Prop) (w quiet w' : World) : Prop where
  edit : e.apply (w.document d).text = .ok (quiet.document d).text
  network : quiet.network = w.network
  log : quiet.log = w.log
  party : ∀ q ≠ p, quiet.party q = w.party q
  reaction : Redrafted d P 0 quiet w'

/-- The session has gone on with a strategy: it is registered once with its document again, and
the host has been told no more than that the peer has accepted. -/
structure Resumes (p : Nat) (l : Live) (s : Strategy) (w w' : World) : Prop where
  captures : ∃ id, w'.phase p =
      .live { l with strategy := s, confirmed := true, capture := some id } ∧
    ∀ d, w'.ownListeners p d = if d = l.document then [(id, .capture p l.epoch)] else []
  events : (w'.party p).events = (w.party p).events ++
    if l.confirmed then [] else [.confirmed l.participants.other]

/-- An admitted edit is in the bounds of the document. -/
theorem Live.checkBounds_of_admit? {l l' : Live} {u : Update} {len : Nat}
    (h : l.admit? u len = some (.ok e, l')) : e.checkBounds len = .ok () := by
  obtain ⟨checked, -, h⟩ := Option.bind_eq_some_iff.1 h
  cases checked with
  | error reason => cases h
  | ok =>
      obtain ⟨⟨adjusted, s⟩, -, h⟩ := Option.bind_eq_some_iff.1 h
      dsimp only at h
      cases hbounds : adjusted.checkBounds len with
      | error reason =>
          rw [hbounds] at h
          cases h
      | ok =>
          rw [hbounds] at h
          cases h
          exact hbounds

theorem World.withoutScripts_suspend (w : World) (p : Nat) (l : Live) (s : Strategy) :
    (w.withoutScripts.suspend p l s).setWriting p true =
    ((w.suspend p l s).setWriting p true).withoutScripts := by
  unfold World.suspend World.detach
  dsimp only
  split <;> rfl

theorem notify_withoutScripts (caller : Caller) {listeners : List (Nat × Subscriber)}
    (hlisteners : ∀ l ∈ listeners, l.2.isCapture = false) :
    Document.notify (World.notifyOne caller) e listeners w.withoutScripts =
      .ok w.withoutScripts := by
  induction listeners with
  | nil => rfl
  | cons l rest ih =>
      obtain ⟨id, subscriber⟩ := l
      cases subscriber with
      | capture q epoch => cases hlisteners _ List.mem_cons_self
      | host i =>
          exact bind_eq_ok_iff.2
            ⟨w.withoutScripts, rfl, ih fun l hl => hlisteners l (List.mem_cons_of_mem _ hl)⟩

theorem write_withoutScripts (depth : Nat) {text : Text} (hw : w.Unheard d P)
    (happly : e.apply (w.document d).text = .ok text) :
    World.write depth d e w.withoutScripts =
      .ok (.ok (), (w.setDocument d { w.document d with text := text }).withoutScripts) := by
  rw [write_eq]
  refine writeVia_of_hookRun (.none hw.hook) (fun hook hsome => ?_) happly ?_
  · cases hw.hook.symm.trans hsome
  · refine notify_withoutScripts (w := w.setDocument d { w.document d with text := text }) _ ?_
    intro l hl
    simpa using List.filter_eq_nil_iff.1 hw.captures l hl

theorem Takes.withoutScripts {sender : PeerId} {payload : Bytes} {c : Call}
    {answer : Except ShareError Unit → Outcome} (h : Takes p sender payload w c answer v) :
    Takes p sender payload w.withoutScripts c answer v.withoutScripts := by
  cases h with
  | given => exact .given
  | next h => exact .next h

section Write

variable {l : Live} {s : Strategy} {u : Update} {payload : Bytes}

theorem handleMessage_of_written (hfree : (w.party p).writing = false) (hlive : w.phase p = .live l)
    (hdecode : Message.decode (w.limits p) payload = .ok (.update u))
    (hadmitted : l.admit? u (w.document l.document).length =
      some (.ok e, { l with strategy := s }))
    (hwrite : World.write depth l.document e ((w.suspend p l s).setWriting p true) =
      .ok (.ok (), v)) :
    w.handleMessage (World.write depth) p l.participants.other payload =
      .ok (.ok (), v.goOn p l) := by
  rw [handleMessage_of_admitted hfree hlive hdecode hadmitted]
  exact bind_eq_ok_iff.2 ⟨_, hwrite, rfl⟩

/-- Whatever is done in reaction, a party that is not called goes on as if nothing was. -/
theorem resumes_of_handleMessage (h : w.Interlude reactive) (hp : ¬ reactive p)
    (hheld : (w.party p).released = false) (hlive : w.phase p = .live l)
    (hdecode : Message.decode (w.limits p) payload = .ok (.update u))
    (hadmitted : l.admit? u (w.document l.document).length =
      some (.ok e, { l with strategy := s }))
    (hcall : w.handleMessage (World.write depth) p l.participants.other payload =
      .ok (.ok (), w')) : Resumes p l s w w' := by
  let paused : Live := { l with strategy := s, confirmed := true, capture := none }
  have hafter : w'.Interlude reactive :=
    .call h (Takes.given.perform_eq_ok_iff.2 ⟨_, hcall, rfl⟩)
  have hopening := Opening.update l s hlive
  rw [handleMessage_of_admitted (h.writing_eq_false p) hlive hdecode hadmitted] at hcall
  obtain ⟨⟨written, v⟩, hwrite, hresult⟩ := bind_eq_ok_iff.1 hcall
  cases written with
  | error reason => cases hresult
  | ok =>
      obtain rfl : v.goOn p l = w' := congrArg Prod.snd (Except.ok.inj hresult)
      -- Nobody calls the party, and it captures nothing.
      have hparty : v.party p = ((w.suspend p l s).setWriting p true).party p := by
        refine (CallEffect.of_write (h.ready.opening hopening) hwrite).party_eq hp hp
          ((hopening.silent.released p).trans hheld) fun l' hlive' => ?_
        cases hopening.phase_eq.symm.trans hlive'
        rfl
      have hpaused : v.phase p = .live paused :=
        (congrArg Party.phase hparty).trans hopening.phase_eq
      obtain ⟨id, hresumed⟩ := World.exists_party_resume hpaused rfl
      have hphase : (v.goOn p l).phase p = .live { paused with capture := some id } :=
        (phase_setWriting ..).trans ((phase_tell ..).trans (congrArg Party.phase hresumed))
      have hown := hafter.enrolled.ownListeners_eq hafter.ready.subscribed hphase rfl
      refine ⟨⟨id, hphase, hown⟩, ?_⟩
      have hevents : ((v.resume p l.epoch).party p).events = (w.party p).events := by
        rw [hresumed]
        exact (congrArg Party.events hparty).trans (hopening.silent.events p)
      rw [World.goOn, World.setWriting, party_modifyParty_self]
      refine (events_tell_self ..).trans ?_
      rw [hevents]
      cases l.confirmed <;> rfl

/-- The listeners of the host are as they were while a party writes. -/
theorem World.Redrafting.suspend (h : w.Redrafting l.document P) (hw : w.Interlude reactive)
    (hlive : w.phase p = .live l) (halone : ∀ q, (w.phase q).document = some l.document → q = p)
    (s : Strategy) : ((w.suspend p l s).setWriting p true).Unheard l.document P where
  hook := (hook_detach ..).trans h.hook
  edits id i hmem now hnow := by
    have hhost := hw.enrolled.hostListeners_worldStep (.suspend w p l s hlive) l.document
    have hmem' : (id, .host i) ∈ w.hostListeners l.document := hhost ▸ List.mem_filter.2 ⟨hmem, rfl⟩
    have hscripts := w.apply_suspend_eq World.scripts (p := p) (fun _ _ => rfl)
      (fun _ _ _ => rfl) l s
    exact h.edits id i (List.mem_filter.1 hmem').1 now (hscripts ▸ hnow)
  captures := hw.ready.subscribed.captures_suspend hlive halone s

/-- What comes of an update that is applied while the host's listeners edit the document. -/
theorem exists_unsent (depth : Nat) (h : w.Interlude reactive) (hlive : w.phase p = .live l)
    (hdecode : Message.decode (w.limits p) payload = .ok (.update u))
    (hadmitted : l.admit? u (w.document l.document).length =
      some (.ok e, { l with strategy := s }))
    (hdraft : w.Redrafting l.document P)
    (halone : ∀ q, (w.phase q).document = some l.document → q = p) {depth' : Nat}
    (hturns : w.turns ≤ depth') :
    ∃ quiet w', w.withoutScripts.handleMessage (World.write depth) p l.participants.other payload =
        .ok (.ok (), quiet) ∧
      w.handleMessage (World.write depth') p l.participants.other payload = .ok (.ok (), w') ∧
      Unsent p l.document e P w quiet w' := by
  let w₀ := (w.suspend p l s).setWriting p true
  have hfree := h.writing_eq_false p
  have hunheard : w₀.Unheard l.document P := hdraft.suspend h hlive halone s
  have htext : (w₀.document l.document).text = (w.document l.document).text :=
    w.apply_suspend_eq (fun v => (v.document l.document).text) (fun _ _ => rfl)
      (fun v d id => text_unlisten v d id l.document) l s
  have happly := Edit.apply_eq_ok_of_checkBounds (Live.checkBounds_of_admit? hadmitted)
  generalize e.after (w.document l.document).text = text at happly
  have hturns₀ : w₀.turns ≤ w.turns :=
    (w.apply_suspend_eq World.turns (fun _ _ => rfl) (fun _ _ _ => rfl) l s).le
  -- The same edit is written to both worlds.
  have happly₀ : e.apply (w₀.document l.document).text = .ok text := htext ▸ happly
  let w₁ := w₀.setDocument l.document { w₀.document l.document with text := text }
  have hhushed : (w.withoutScripts.suspend p l s).setWriting p true = w₀.withoutScripts :=
    w.withoutScripts_suspend p l s
  have hquiet := write_withoutScripts depth hunheard happly₀
  rw [← hhushed] at hquiet
  obtain ⟨v, hwrite, hreacted⟩ := (settles_nestedCaller l.document P depth').writeVia hunheard
    (hturns₀.trans hturns) happly₀
  rw [← write_eq] at hwrite
  refine ⟨w₁.withoutScripts.goOn p l, v.goOn p l,
    handleMessage_of_written hfree hlive hdecode hadmitted hquiet,
    handleMessage_of_written hfree hlive hdecode hadmitted hwrite, ?_⟩
  have hreaction : Redrafted l.document P 0 w₁.withoutScripts v :=
    (Redrafted.of_scripts l.document P w₁.withoutScripts w₁.scripts).trans hreacted.toRedrafted
  refine ⟨?_, ?_, ?_, fun q hq => ?_, hreaction.goOn p l⟩
  · have hwritten : ((w₁.withoutScripts.goOn p l).document l.document).text = text :=
      (w₁.withoutScripts.apply_goOn_eq (fun v => (v.document l.document).text) (fun _ _ => rfl)
        (fun v epoch d => text_attach v p epoch d l.document) l).trans
        (congrArg Document.text (document_setDocument_self ..))
    rw [hwritten, happly]
  · exact (w₁.withoutScripts.apply_goOn_eq World.network (fun _ _ => rfl)
      (fun _ _ _ => rfl) l).trans
      (w.apply_suspend_eq World.network (fun _ _ => rfl) (fun _ _ _ => rfl) l s)
  · exact (w₁.withoutScripts.apply_goOn_eq World.log (fun _ _ => rfl) (fun _ _ _ => rfl) l).trans
      (w.apply_suspend_eq World.log (fun _ _ => rfl) (fun _ _ _ => rfl) l s)
  · have hparty : ∀ (v : World) (f : Party → Party), (v.modifyParty p f).party q = v.party q :=
      fun v f => party_modifyParty_of_ne v f hq
    exact (w₁.withoutScripts.apply_goOn_eq (World.party · q) hparty (fun _ _ _ => rfl) l).trans
      (w.apply_suspend_eq (World.party · q) hparty (fun _ _ _ => rfl) l s)

end Write

/-! ## What the peer has -/

/-- A party shares its document with the other of two, in a session as they may come to it.  What
the host's listeners will do is left open. -/
def World.Sharing (role : Role) (w : World) : Prop :=
  ∃ config ids texts base, Setup config ids ∧ Reachable config ids texts true base ∧
    w = { base with scripts := w.scripts } ∧ (w.phase role.other.index).isSharing = true

theorem Agreeing.withoutScripts {bound : Nat} {config : Config} {ids : Nat → PeerId}
    (h : Agreeing bound config ids w) : Agreeing bound config ids w.withoutScripts where
  furnished := { h.furnished with passive := nofun }
  tidy := h.tidy
  between := h.between

/-- When the host's listeners do nothing and nothing is on the way, the texts are equal. -/
theorem World.Sharing.text_eq {role : Role} {quiet : World} {outcome : Outcome} {l : Live}
    (h : w.Sharing role)
    (hrun : w.withoutScripts.run (.handleNext role.index) = .ok (outcome, quiet))
    (hlive : quiet.phase role.index = .live l)
    (hother : quiet.phase role.other.index = w.phase role.other.index)
    (hqueues : ∀ role' : Role, (quiet.network.endpoint role'.index).queue = []) :
    l.document = role.index ∧
      (quiet.document role.other.index).text = (quiet.document role.index).text := by
  obtain ⟨config, ids, texts, base, hsetup, hbase, hw, hsharing⟩ := h
  have hagreeing : Agreeing Word.maxSigned config ids w.withoutScripts := by
    rw [hw]
    have hagreeing : Agreeing Word.maxSigned config ids base := hbase.sound hsetup
    exact hagreeing.withoutScripts
  have hroomy : (w.withoutScripts.seats role.index).Roomy := by
    rw [hw]
    exact (hbase.calm role).1
  rw [← hother] at hsharing
  obtain ⟨hoverflow, -⟩ | ⟨result, w', hrun', -, hw'⟩ :=
    hagreeing.handles hsetup role hroomy (Nat.le_refl _)
  · cases hrun.symm.trans hoverflow
  · cases hrun.symm.trans hrun'
    cases hw'.atRest hqueues with
    | apart hidle => cases hlive.symm.trans (hidle role).1
    | offering hinitiator _ _ hoffered =>
        cases role with
        | initiator =>
            rw [Role.other, hoffered] at hsharing
            cases hsharing
        | receiver => cases hlive.symm.trans hoffered
    | sharing hinitiator _ hdocument hreceiver _ hdocument' htexts =>
        cases role with
        | initiator =>
            cases hlive.symm.trans hinitiator
            exact ⟨hdocument, htexts.symm⟩
        | receiver =>
            cases hlive.symm.trans hreceiver
            exact ⟨hdocument', htexts⟩

/-! ## Reactions to an edit of the peer -/

/-- A call makes a party take in an update of the peer, and this edit has to be written for it.
The session has this strategy then, and this is the world without the message. -/
inductive Applies (p : Nat) (w : World) : Call → (Except ShareError Unit → Outcome) → Live →
    Strategy → Edit → World → Prop where
  | intro {c : Call} {answer : Except ShareError Unit → Outcome} {l : Live} {s : Strategy}
      {e : Edit} {u : Update} {payload : Bytes} {v : World}
      (htakes : Takes p l.participants.other payload w c answer v) (hlive : w.phase p = .live l)
      (hdecode : Message.decode (w.limits p) payload = .ok (.update u))
      (hadmitted : l.admit? u (w.document l.document).length =
        some (.ok e, { l with strategy := s })) :
      Applies p w c answer l s e v

/-- While an edit of the peer is written, listeners of the host make calls, of which none is one of
the party.  When the call ends well,
the session goes on with the strategy that it has when the update has been received, and captures
again with one listener, and the host is told of no failure.

If nobody else shares the document, and the listeners do nothing but edit it, then the call ends
well, however deep these edits are nested.  None of them is captured or sent: all is as if the
listeners had done nothing, but for the text of the document, to which the edits that succeeded
have been made.  So when nothing is on the way after the call, the peer has the text as it was
before them. -/
theorem unsent_in_reaction (h : w.Interlude reactive) (hp : ¬ reactive p)
    (hheld : (w.party p).released = false) {c : Call} {answer : Except ShareError Unit → Outcome}
    {l : Live} {s : Strategy} (happlies : Applies p w c answer l s e v) :
    (∀ depth w', perform (World.write depth) c w = .ok (answer (.ok ()), w') →
      Resumes p l s w w') ∧
    ∀ P, w.Redrafting l.document P →
      (∀ q, (w.phase q).document = some l.document → q = p) →
      ∃ quiet w', w.withoutScripts.run c = .ok (answer (.ok ()), quiet) ∧
        w.run c = .ok (answer (.ok ()), w') ∧ Unsent p l.document e P v quiet w' ∧
        ∀ role : Role, p = role.index → c = .handleNext p → w.Sharing role →
          (∀ role' : Role, (w'.network.endpoint role'.index).queue = []) →
          (w'.document role.other.index).text = (quiet.document l.document).text := by
  obtain ⟨htakes, hlive, hdecode, hadmitted⟩ := happlies
  obtain ⟨network, rfl⟩ := htakes.exists_network
  have hreceived : { w with network := network }.Interlude reactive :=
    .arranged h (.network network)
  have hresumes : ∀ depth w', perform (World.write depth) c w = .ok (answer (.ok ()), w') →
      Resumes p l s w w' := by
    intro depth w' hcall
    obtain ⟨result, hmessage, hanswer⟩ := htakes.perform_eq_ok_iff.1 hcall
    obtain rfl := htakes.answer_injective hanswer
    obtain ⟨hcaptures, hevents⟩ :=
      resumes_of_handleMessage hreceived hp hheld hlive hdecode hadmitted hmessage
    exact ⟨hcaptures, hevents⟩
  refine ⟨hresumes, fun P hdraft halone => ?_⟩
  obtain ⟨quiet, w', hquiet, hmessage, hunsent⟩ :=
    exists_unsent w.withoutScripts.pendingReactions hreceived hlive hdecode hadmitted
      ⟨hdraft.hook, hdraft.edits⟩ halone (Nat.le_add_left w.turns _)
  have hrun : w.withoutScripts.run c = .ok (answer (.ok ()), quiet) :=
    htakes.withoutScripts.perform_eq_ok_iff.2 ⟨_, hquiet, rfl⟩
  have hrun' : w.run c = .ok (answer (.ok ()), w') :=
    htakes.perform_eq_ok_iff.2 ⟨_, hmessage, rfl⟩
  refine ⟨quiet, w', hrun, hrun', hunsent, ?_⟩
  rintro role rfl rfl hsharing hqueues
  obtain ⟨id, hphase, -⟩ := (hresumes _ w' hrun').captures
  have hparties := hunsent.reaction.parties
  rw [World.phase, World.party, hparties] at hphase
  rw [hunsent.reaction.network] at hqueues
  obtain ⟨hdocument, htexts⟩ := hsharing.text_eq hrun hphase
    (congrArg Party.phase (hunsent.party _ role.index_ne.symm)) hqueues
  have hdocument : l.document = role.index := hdocument
  have hothers := hunsent.reaction.others role.other.index (hdocument ▸ role.index_ne.symm)
  rw [World.document, hothers, hdocument]
  exact htexts

/-- What two parties may come to lies between calls. -/
theorem Reachable.interlude {config : Config} {ids : Nat → PeerId} {texts : Nat → Text}
    {started : Bool} (h : Reachable config ids texts started w) : w.Interlude reactive := by
  induction h with
  | init => exact .arranged (.arranged (.arranged (.arranged .empty (.addParty ..)) (.addParty ..))
      (.addDocument ..)) (.addDocument ..)
  | start _ hrun _ ih => exact ih.run hrun
  | step _ hstep _ ih =>
      cases hstep with
      | call _ hrun => exact ih.run hrun
      | watch hwatch =>
          refine .arranged ih ?_
          cases hwatch with
          | listen hscript =>
              refine .listen _ _ fun now hnow c hc => ?_
              rw [hscript now hnow] at hc
              cases hc
          | unlisten hid =>
              exact .unlisten _ _ fun q epoch hcapture => by cases hid _ hcapture rfl
          | readEvents => exact .read _ _

/-- Bob's host puts a letter in front when it is told of Alice's edit.  Alice will not hear of
it. -/
theorem unsent_in_reaction_front :
    let front : Edit := ⟨0, 0, ['Y']⟩
    ∃ w v quiet w' : World, ∃ l s, w.Interlude (fun _ => False) ∧ w.Sharing .receiver ∧
      Applies 1 w (.handleNext 1) (fun result => .next (.ok (some result))) l s ⟨0, 1, []⟩ v ∧
      w.run (.handleNext 1) = .ok (.next (.ok (some (.ok ()))), w') ∧ Resumes 1 l s w w' ∧
      Unsent 1 1 ⟨0, 1, []⟩ (· = front) v quiet w' ∧
      (w'.document 1).text = ['Y', 'b'] ∧ (w'.document 0).text = (quiet.document 1).text := by
  intro front
  let alice : PeerId := .ofByte 0xA1
  let bob : PeerId := .ofByte 0xB0
  let ids : Nat → PeerId := fun p => if p = 0 then alice else bob
  have hsetup : Setup Config.usual ids := ⟨by decide, rfl, by decide⟩
  have h₀ := @Reachable.init Config.usual ids (fun p => if p = 0 then ['a', 'b'] else [])
    (by decide +kernel)
  have h₁ := @Reachable.after_invite _ _ _ _ h₀ none [] (by decide +kernel) (by decide +kernel)
  have h₂ := h₁.after (.handleNext .receiver) (by decide +kernel) (by decide +kernel)
  have h₃ := h₂.after .accept (by decide +kernel) (by decide +kernel)
  have h₄ := h₃.after (.edit .initiator ⟨0, 1, []⟩) (by decide +kernel) (by decide +kernel)
  generalize hbase : World.after _ _ = base at h₄
  have h₅ := h₄.step (.watch (@Watches.listen .receiver _ [] nofun))
    (by subst hbase; decide +kernel)
  let w : World := (base.listen 1 [[.edit 1 front]]).2
  let s : Strategy := .backlog ⟨[], 0, 0, 1, .remoteFirst⟩
  let l : Live := ⟨⟨bob, alice, bob⟩, 1, 1, some 1, .backlog ⟨[], 0, 0, 0, .remoteFirst⟩, true⟩
  let u : Update := ⟨⟨0, 1, []⟩, 1, 0⟩
  have hrun : w.phase 1 = .live l ∧
      (w.receive 1).1 = .ok (some (.message alice (Message.payload (.update u)))) ∧
      Message.decode (w.limits 1) (Message.payload (.update u)) = .ok (.update u) ∧
      l.admit? u (w.document 1).length = some (.ok u.edit, { l with strategy := s }) ∧
      (w.party 1).released = false ∧ (w.surfaces.get 1).hook.isNone ∧
      (w.document 1).listeners = [(1, .capture 1 1), (2, .host 0)] ∧
      w.scripts.get 0 = [[.edit 1 front]] ∧ (w.phase 0).document = some 0 ∧
      w.parties.slots.length = 2 ∧ (w.phase 0).isSharing = true ∧
      ∃ r ∈ (w.run (.handleNext 1)).toOption, (r.2.document 1).text = ['Y', 'b'] ∧
        ∀ role' : Role, (r.2.network.endpoint role'.index).queue = [] := by
    subst hbase
    decide +kernel
  obtain ⟨hlive, hreceive, hdecode, hadmitted, hheld, hhook, hlisteners, hscript, hother, hlength,
    hsharing, ⟨outcome, w'⟩, hw', htext, hqueues⟩ := hrun
  have hinterlude : w.Interlude fun _ => False := by
    refine .arranged h₄.interlude (.listen 1 _ fun now hnow c hc q hq => ?_)
    obtain rfl := List.mem_singleton.1 hnow
    obtain rfl := List.mem_singleton.1 hc
    cases hq
  have happlies : Applies 1 w (.handleNext 1) _ l s u.edit _ :=
    .intro (.next hreceive) hlive hdecode hadmitted
  have hdraft : w.Redrafting 1 (· = front) := by
    refine ⟨Option.isNone_iff_eq_none.1 hhook, fun id i hmem now hnow c hc => ?_⟩
    obtain ⟨-, rfl⟩ : id = 2 ∧ i = 0 := by simpa [hlisteners] using hmem
    rw [hscript] at hnow
    obtain rfl := List.mem_singleton.1 hnow
    exact ⟨front, List.mem_singleton.1 hc, rfl⟩
  have halone : ∀ q, (w.phase q).document = some 1 → q = 1 := by
    intro q hq
    match q with
    | 0 => cases hother.symm.trans hq
    | 1 => rfl
    | q + 2 =>
        have hnone : w.parties.slots[q + 2]? = none := List.getElem?_eq_none (by omega)
        rw [World.phase, World.party, Table.get, hnone] at hq
        cases hq
  obtain ⟨hresumes, hreaction⟩ :=
    unsent_in_reaction hinterlude not_false hheld happlies
  obtain ⟨quiet, w'', -, hrun, hunsent, hpeer⟩ := hreaction (· = front) hdraft halone
  have hsame := hrun.symm.trans (eq_ok_of_mem_toOption hw')
  cases hsame
  have hshares : w.Sharing .receiver := ⟨_, _, _, _, hsetup, h₅, rfl, hsharing⟩
  exact ⟨w, _, quiet, w', l, s, hinterlude, hshares, happlies, hrun, hresumes _ _ hrun, hunsent,
    htext, hpeer .receiver rfl rfl hshares hqueues⟩

/-- Bob's listener has nothing to do when the text that he accepts is written, and it edits the
document when Alice's edit is.  Its edit succeeds.  Nothing is outstanding then or on the way,
and Alice has another text than Bob. -/
theorem reaction_lost_at_rest :
    let alice : PeerId := .ofByte 0xA1
    let w₀ := ((Pair.idle ['a', 'b'] .usual).world.listen 1 [[], [.edit 1 ⟨0, 0, ['Y']⟩]]).2
    ∃ w w' : World, w₀.runAll [.start 0 alice none (.ofByte 0xB0) [] 0, .handleNext 1,
        .accept 1 1, .edit 0 ⟨0, 1, []⟩] = .ok w ∧
      (∃ outcome, w.run (.handleNext 1) = .ok (outcome, w')) ∧
      w.log.map Outcome.isMade = [] ∧ w'.log.map Outcome.isMade = [true] ∧
      (w'.phase 0).isSharing = true ∧ (w'.phase 1).isSharing = true ∧
      (w'.phase 1).outstanding = [] ∧
      (∀ role : Role, (w'.network.endpoint role.index).queue = []) ∧
      (w'.document 0).text = ['b'] ∧ (w'.document 1).text = ['Y', 'b'] := by
  intro alice w₀
  have hrun : ∃ w ∈ (w₀.runAll [.start 0 alice none (.ofByte 0xB0) [] 0, .handleNext 1,
        .accept 1 1, .edit 0 ⟨0, 1, []⟩]).toOption,
      ∃ r ∈ (w.run (.handleNext 1)).toOption,
        w.log.map Outcome.isMade = [] ∧ r.2.log.map Outcome.isMade = [true] ∧
        (r.2.phase 0).isSharing = true ∧ (r.2.phase 1).isSharing = true ∧
        (r.2.phase 1).outstanding = [] ∧
        (∀ role : Role, (r.2.network.endpoint role.index).queue = []) ∧
        (r.2.document 0).text = ['b'] ∧ (r.2.document 1).text = ['Y', 'b'] := by
    decide +kernel
  obtain ⟨w, hw, ⟨outcome, w'⟩, hw', hfacts⟩ := hrun
  exact ⟨w, w', eq_ok_of_mem_toOption hw, ⟨outcome, eq_ok_of_mem_toOption hw'⟩, hfacts⟩

end PairEdit.Session
