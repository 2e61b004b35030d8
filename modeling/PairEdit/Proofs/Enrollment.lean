import Mathlib.Data.List.Nodup
import PairEdit.Proofs.Interludes

/-!
# One capture for each session

A live session captures with one listener, and takes nobody else's off.  `Enrolled` says that
listeners of a document have numbers of their own, and that a session is really registered with
the number that it captures with.  Between calls every live session captures, so its document has
exactly one listener of the party and no other document has any.  The listeners of the host
outlast every call, in the order in which they were registered.
-/

namespace PairEdit

/-! ## Numbers of listeners -/

namespace Document

variable {κ : Type} {d : Document κ} {id : Nat} {listener : κ}

/-- Every listener has a number of its own, and the next one will have one too. -/
structure Numbered (d : Document κ) : Prop where
  pos : ∀ l ∈ d.listeners, 0 < l.1
  lt : ∀ l ∈ d.listeners, l.1 < d.nextId
  next_pos : 0 < d.nextId
  nodup : (d.listeners.map Prod.fst).Nodup

namespace Numbered

theorem ofText (text : Text) : (Document.ofText text : Document κ).Numbered :=
  ⟨nofun, nofun, Nat.one_pos, List.nodup_nil⟩

theorem setText (h : d.Numbered) (text : Text) : { d with text := text }.Numbered :=
  ⟨h.pos, h.lt, h.next_pos, h.nodup⟩

theorem listen (h : d.Numbered) (listener : κ) : (d.listen listener).2.Numbered where
  pos l hl := by
    obtain hl | hl := List.mem_append.1 hl
    · exact h.pos l hl
    · rw [List.mem_singleton.1 hl]
      exact h.next_pos
  lt l hl := by
    obtain hl | hl := List.mem_append.1 hl
    · exact Nat.lt_succ_of_lt (h.lt l hl)
    · rw [List.mem_singleton.1 hl]
      exact Nat.lt_succ_self _
  next_pos := Nat.succ_pos _
  nodup := by
    have hfresh : d.nextId ∉ d.listeners.map Prod.fst := by
      intro hmem
      obtain ⟨l, hl, heq⟩ := List.mem_map.1 hmem
      exact absurd (h.lt l hl) (heq ▸ Nat.lt_irrefl _)
    simp only [Document.listen, List.map_append, List.map_cons, List.map_nil]
    exact List.nodup_append.2 ⟨h.nodup, List.nodup_singleton _, fun a ha b hb heq =>
      hfresh (List.mem_singleton.1 hb ▸ heq ▸ ha)⟩

theorem unlisten (h : d.Numbered) (id : Nat) : (d.unlisten id).2.Numbered where
  pos l hl := h.pos l (List.mem_filter.1 hl).1
  lt l hl := h.lt l (List.mem_filter.1 hl).1
  next_pos := h.next_pos
  nodup := h.nodup.sublist (List.filter_sublist.map _)

/-- Two listeners with one number are the same. -/
theorem eq_of_fst_eq (h : d.Numbered) {l l' : Nat × κ} (hl : l ∈ d.listeners)
    (hl' : l' ∈ d.listeners) (heq : l.1 = l'.1) : l = l' :=
  List.inj_on_of_nodup_map h.nodup hl hl' heq

/-- To take off a listener of one kind changes nothing about the listeners of another. -/
theorem filter_unlisten (h : d.Numbered) (hmem : (id, listener) ∈ d.listeners)
    {kind : Nat × κ → Bool} (hkind : kind (id, listener) = false) :
    (d.unlisten id).2.listeners.filter kind = d.listeners.filter kind := by
  rw [Document.unlisten, List.filter_filter]
  refine List.filter_congr fun l hl => ?_
  by_cases hid : l.1 = id
  · rw [h.eq_of_fst_eq hl hmem hid, hkind, Bool.false_and]
  · rw [bne_iff_ne.2 hid, Bool.and_true]

/-- When one listener alone is of a kind, it is all there is of it. -/
theorem filter_eq_singleton (h : d.Numbered) {l : Nat × κ} (hmem : l ∈ d.listeners)
    {kind : Nat × κ → Bool} (hkind : kind l = true)
    (honly : ∀ l' ∈ d.listeners, kind l' = true → l' = l) : d.listeners.filter kind = [l] := by
  have hall := List.eq_replicate_of_mem (l := d.listeners.filter kind) fun l' hl' =>
    honly l' (List.mem_filter.1 hl').1 (List.mem_filter.1 hl').2
  have hnodup : (d.listeners.filter kind).Nodup := h.nodup.of_map.filter kind
  have hin : l ∈ d.listeners.filter kind := List.mem_filter.2 ⟨hmem, hkind⟩
  have hle : (d.listeners.filter kind).length ≤ 1 := List.nodup_replicate.1 (hall ▸ hnodup)
  have hlength : (d.listeners.filter kind).length = 1 :=
    Nat.le_antisymm hle (List.length_pos_of_mem hin)
  rw [hall, hlength]
  rfl

end Numbered

end Document

namespace Session

open World

variable {reactive : Nat → Prop} {w w' : World} {p q d id epoch : Nat}

/-! ## Being registered -/

/-- Whether a listener captures for a party. -/
def Subscriber.isOf (p : Nat) : Subscriber → Bool
  | .capture q _ => q == p
  | .host _ => false

/-- The listeners of a document that capture for a party. -/
def World.ownListeners (w : World) (p d : Nat) : List (Nat × Subscriber) :=
  (w.document d).listeners.filter fun l => l.2.isOf p

/-- The listeners of a document that belong to the host. -/
def World.hostListeners (w : World) (d : Nat) : List (Nat × Subscriber) :=
  (w.document d).listeners.filter fun l => !l.2.isCapture

/-- A party without a live session has no listener anywhere. -/
theorem Subscribed.ownListeners_eq_nil (h : Subscribed w)
    (hnone : ∀ l, w.phase p ≠ .live l) (d : Nat) : w.ownListeners p d = [] := by
  refine List.filter_eq_nil_iff.2 ?_
  rintro ⟨j, subscriber⟩ hmem hof
  cases subscriber with
  | host i => cases hof
  | capture q epoch =>
      obtain rfl : q = p := beq_iff_eq.1 hof
      obtain ⟨l, hlive, -⟩ := h.capturesWith d j q epoch hmem
      exact hnone l hlive

/-- Listeners have numbers of their own, and a live session is registered with the one that it
captures with. -/
structure Enrolled (w : World) : Prop where
  numbered : ∀ d, (w.document d).Numbered
  hasCapture : ∀ p l id, w.phase p = .live l → l.capture = some id →
    w.HasCapture l.document id p l.epoch

namespace Enrolled

/-- A change of phases only, after which no session captures with another listener. -/
theorem of_document_eq (h : Enrolled w) (hdocument : ∀ d, w'.document d = w.document d)
    (hphase : ∀ p l id, w'.phase p = .live l → l.capture = some id →
      ∃ l₀, w.phase p = .live l₀ ∧ l₀.document = l.document ∧ l₀.epoch = l.epoch ∧
        l₀.capture = some id) : Enrolled w' where
  numbered d := hdocument d ▸ h.numbered d
  hasCapture p l id hlive hcapture := by
    obtain ⟨l₀, hlive₀, hd, hepoch, hcapture₀⟩ := hphase p l id hlive hcapture
    rw [HasCapture, hdocument, ← hd, ← hepoch]
    exact h.hasCapture p l₀ id hlive₀ hcapture₀

theorem of_phase_eq (h : Enrolled w) (hdocument : ∀ d, w'.document d = w.document d)
    (hphase : ∀ q, w'.phase q = w.phase q) : Enrolled w' :=
  h.of_document_eq hdocument fun p l _ hlive hcapture =>
    ⟨l, hphase p ▸ hlive, rfl, rfl, hcapture⟩

theorem modifyParty (h : Enrolled w) {f : Party → Party}
    (hf : ∀ party, (f party).phase = party.phase) : Enrolled (w.modifyParty p f) :=
  h.of_phase_eq (fun _ => rfl) (apply_party_modifyParty (π := Party.phase) hf p)

/-- A phase that captures with what the one before did, or with nothing. -/
theorem setPhase (h : Enrolled w) {phase : Phase}
    (hphase : ∀ l id, phase = .live l → l.capture = some id →
      ∃ l₀, w.phase p = .live l₀ ∧ l₀.document = l.document ∧ l₀.epoch = l.epoch ∧
        l₀.capture = some id) : Enrolled (w.setPhase p phase) := by
  refine h.of_document_eq (fun _ => rfl) fun q l id hlive hcapture => ?_
  by_cases hq : q = p
  · subst hq
    rw [phase_setPhase_self] at hlive
    exact hphase l id hlive hcapture
  · rw [phase_setPhase_of_ne w phase hq] at hlive
    exact ⟨l, hlive, rfl, rfl, hcapture⟩

/-- A change of one document that keeps what captures there. -/
theorem setDocument (h : Enrolled w) {document : Document Subscriber}
    (hnumbered : document.Numbered)
    (hcaptures : ∀ p l id, w.phase p = .live l → l.capture = some id → l.document = d →
      (id, .capture p l.epoch) ∈ document.listeners) : Enrolled (w.setDocument d document) where
  numbered e := by
    by_cases he : e = d
    · subst he
      rw [document_setDocument_self]
      exact hnumbered
    · rw [document_setDocument_of_ne w document he]
      exact h.numbered e
  hasCapture p l id hlive hcapture := by
    unfold HasCapture
    by_cases hd : l.document = d
    · rw [hd, document_setDocument_self]
      exact hcaptures p l id hlive hcapture hd
    · rw [document_setDocument_of_ne w document hd]
      exact h.hasCapture p l id hlive hcapture

/-- A listener that no session captures with is taken off. -/
theorem unlisten (h : Enrolled w)
    (hunused : ∀ p l, w.phase p = .live l → l.document = d → l.capture ≠ some id) :
    Enrolled (w.unlisten d id) := by
  refine h.setDocument ((h.numbered d).unlisten id) fun p l j hlive hcapture hd => ?_
  refine List.mem_filter.2 ⟨hd ▸ h.hasCapture p l j hlive hcapture, ?_⟩
  exact bne_iff_ne.2 fun hj : j = id => hunused p l hlive hd (by rw [hcapture, hj])

/-- No two sessions capture with one listener. -/
theorem eq_of_capture_eq (h : Enrolled w) {l l' : Live} (hlive : w.phase p = .live l)
    (hcapture : l.capture = some id) (hlive' : w.phase q = .live l')
    (hcapture' : l'.capture = some id) (hd : l'.document = l.document) : q = p := by
  have hmem := h.hasCapture p l id hlive hcapture
  have hmem' := h.hasCapture q l' id hlive' hcapture'
  rw [HasCapture, hd] at hmem'
  have heq := (h.numbered l.document).eq_of_fst_eq hmem' hmem rfl
  simp only [Prod.mk.injEq, Subscriber.capture.injEq] at heq
  exact heq.2.1

/-- A party that goes into a phase in which it captures nothing, with its listener taken off. -/
theorem withdraw (h : Enrolled w) {phase : Phase}
    (hphase : ∀ l, phase = .live l → l.capture = none) :
    Enrolled ((w.setPhase p phase).detach (w.phase p)) := by
  have hset : Enrolled (w.setPhase p phase) :=
    h.setPhase fun l id hlive hcapture => by rw [hphase l hlive] at hcapture; cases hcapture
  obtain heq | ⟨l, id, hlive, hcapture, heq⟩ := (w.setPhase p phase).detach_cases (w.phase p)
  · rwa [heq]
  · rw [heq]
    refine hset.unlisten fun q l' hlive' hd hcapture' => ?_
    by_cases hq : q = p
    · subst hq
      rw [phase_setPhase_self] at hlive'
      rw [hphase l' hlive'] at hcapture'
      cases hcapture'
    · rw [phase_setPhase_of_ne w phase hq] at hlive'
      exact hq (h.eq_of_capture_eq hlive hcapture hlive' hcapture' hd)

/-- A party that begins to capture. -/
theorem attach (h : Enrolled w) {l : Live}
    (hcapture : l.capture = some (w.attach p l.epoch l.document).1) :
    Enrolled ((w.attach p l.epoch l.document).2.setPhase p (.live l)) := by
  have hlisten : (w.document l.document).Numbered := h.numbered l.document
  have hattach : Enrolled (w.attach p l.epoch l.document).2 :=
    h.setDocument (hlisten.listen _) fun q l' id hlive' hcapture' hd =>
      List.mem_append_left _ (hd ▸ h.hasCapture q l' id hlive' hcapture')
  refine ⟨hattach.numbered, fun q l' id hlive' hcapture' => ?_⟩
  by_cases hq : q = p
  · subst hq
    rw [phase_setPhase_self] at hlive'
    cases hlive'
    rw [hcapture] at hcapture'
    cases hcapture'
    rw [HasCapture, document_setPhase, World.attach, document_setDocument_self]
    exact List.mem_append_right _ List.mem_cons_self
  · rw [phase_setPhase_of_ne _ _ hq] at hlive'
    exact hattach.hasCapture q l' id hlive' hcapture'

theorem vacate (h : Enrolled w) (p : Nat) : Enrolled (w.vacate p) := h.withdraw nofun

theorem suspend (h : Enrolled w) {l : Live} {s : Strategy} (hlive : w.phase p = .live l) :
    Enrolled (w.suspend p l s) := by
  have hwithdraw : Enrolled ((w.setPhase p (.live { l with
      strategy := s, confirmed := true, capture := none })).detach (w.phase p)) := by
    refine h.withdraw ?_
    rintro _ ⟨⟩
    rfl
  rwa [hlive] at hwithdraw

theorem resume (h : Enrolled w) (p epoch : Nat) : Enrolled (w.resume p epoch) := by
  obtain ⟨heq, -⟩ | ⟨l, -, rfl, -, heq⟩ := w.resume_cases p epoch
  · rwa [heq]
  · rw [heq]
    exact h.attach (l := { l with capture := some _ }) rfl

theorem initiate (h : Enrolled w) (p d : Nat) (participants : Participants) (s : Strategy) :
    Enrolled (w.initiate p d participants s) :=
  Enrolled.attach (w := (w.nextEpoch p).2)
    (l := ⟨participants, (w.nextEpoch p).1, d, some _, s, false⟩)
    (h.modifyParty fun _ => rfl) rfl

theorem join (h : Enrolled w) (p d : Nat) (o : Offered) (s : Strategy) :
    Enrolled (w.join p d o s) := by
  have hnext : Enrolled (w.nextEpoch p).2 := h.modifyParty fun _ => rfl
  refine hnext.setPhase fun l id hlive hcapture => ?_
  cases hlive
  cases hcapture

theorem setSurface (h : Enrolled w) (d : Nat) {f : Surface → Surface}
    (hf : ∀ s, (f s).document = s.document) :
    Enrolled { w with surfaces := w.surfaces.modify d f } := by
  refine h.of_phase_eq (fun e => ?_) fun _ => rfl
  by_cases he : e = d
  · subst he
    rw [World.document, Table.get_modify_self, hf]
    rfl
  · rw [World.document, Table.get_modify_of_ne _ f he]
    rfl

/-- No step spoils the numbers, or makes a session capture with a listener that is not its
own. -/
theorem worldStep (h : Enrolled w) (hstep : WorldStep w w') : Enrolled w' := by
  cases hstep with
  | text d t =>
      exact h.setDocument ((h.numbered d).setText t) fun p l id hlive hcapture hd =>
        hd ▸ h.hasCapture p l id hlive hcapture
  | unhook d => exact h.setSurface d fun _ => rfl
  | note | receive | disconnect | release => exact h.of_phase_eq (fun _ => rfl) fun _ => rfl
  | emit p event => exact h.modifyParty fun _ => rfl
  | send p peer m => exact h.of_phase_eq (document_send w p peer m) (phase_send w p peer m)
  | vacate p => exact h.vacate p
  | stay p => exact h.setPhase fun l _ hlive hcapture => ⟨l, hlive, rfl, rfl, hcapture⟩
  | offer p o hidle => exact h.setPhase nofun
  | absorb p o text n hoffered => exact h.setPhase nofun
  | retune p l s hlive =>
      refine h.setPhase fun l' id hlive' hcapture => ?_
      cases hlive'
      exact ⟨l, hlive, rfl, rfl, hcapture⟩
  | suspend p l s hlive => exact h.suspend hlive
  | resume p epoch => exact h.resume p epoch
  | initiate p d participants s hidle => exact h.initiate p d participants s
  | join p d o s hoffered => exact h.join p d o s

theorem worldSteps (h : Enrolled w) (hsteps : WorldSteps w w') : Enrolled w' :=
  hsteps.invariant (fun hstep hw => hw.worldStep hstep)
    (fun _ _ hw => hw.modifyParty fun _ => rfl) h

theorem opening {l : Live} {news : Option Event} (h : Enrolled w)
    (hopening : Opening p w l news w') : Enrolled w' := by
  cases hopening with
  | update l s hlive => exact (h.suspend hlive).modifyParty fun _ => rfl
  | accept o d s hoffered =>
      have hwriting : Enrolled (w.setWriting p true) := h.modifyParty fun _ => rfl
      exact hwriting.join p d o s

theorem addParty (h : Enrolled w) (peer : PeerId) (config : Config) :
    Enrolled (w.addParty peer config).2 :=
  h.of_phase_eq (fun _ => rfl) (apply_party_addParty (π := Party.phase) w peer fun _ => rfl)

theorem addDocument (h : Enrolled w) (text : Text) : Enrolled (w.addDocument text).2 where
  numbered d := by
    simp only [World.document, World.addDocument, Table.get_push]
    split
    · exact .ofText text
    · exact h.numbered d
  hasCapture p l id hlive hcapture := by
    have hmem := h.hasCapture p l id hlive hcapture
    simp only [HasCapture, World.document, World.addDocument, Table.get_push]
    split
    · next hd =>
        rw [HasCapture, World.document, hd, Table.get,
          List.getElem?_eq_none (Nat.le_refl _)] at hmem
        cases hmem
    · exact hmem

theorem listen (h : Enrolled w) (d : Nat) (script : List (List Call)) :
    Enrolled (w.listen d script).2 := by
  have hscripts : Enrolled { w with scripts := (w.scripts.push script).2 } :=
    h.of_phase_eq (fun _ => rfl) fun _ => rfl
  exact hscripts.setDocument ((h.numbered d).listen _) fun p l id hlive hcapture hd =>
    List.mem_append_left _ (hd ▸ h.hasCapture p l id hlive hcapture)

theorem arranged (h : Enrolled w) (harranged : Arranged reactive w w') : Enrolled w' := by
  cases harranged with
  | network n => exact h.of_phase_eq (fun _ => rfl) fun _ => rfl
  | addParty peer config => exact h.addParty peer config
  | addDocument text => exact h.addDocument text
  | listen d script => exact h.listen d script
  | unlisten d id hown =>
      exact h.unlisten fun p l hlive hd hcapture =>
        hown p l.epoch (hd ▸ h.hasCapture p l id hlive hcapture)
  | arm d hook =>
      have hset : Enrolled (w.setHook d (some hook)) := h.setSurface d fun _ => rfl
      exact hset.worldSteps (worldSteps_collect _)
  | release q =>
      have hletGo : Enrolled (w.modifyParty q fun party => { party with released := true }) :=
        h.modifyParty fun _ => rfl
      exact hletGo.worldSteps (worldSteps_collect _)
  | releaseDocument d =>
      have hletGo : Enrolled { w with
          surfaces := w.surfaces.modify d fun s => { s with released := true } } :=
        h.setSurface d fun _ => rfl
      exact hletGo.worldSteps (worldSteps_collect _)
  | read q events => exact h.modifyParty fun _ => rfl

/-- The one listener of a session that captures. -/
theorem ownListeners_eq (h : Enrolled w) (hsubscribed : Subscribed w) {l : Live}
    (hlive : w.phase p = .live l) (hcapture : l.capture = some id) (d : Nat) :
    w.ownListeners p d = if d = l.document then [(id, .capture p l.epoch)] else [] := by
  have hown : ∀ a ∈ (w.document d).listeners, a.2.isOf p = true →
      d = l.document ∧ a = (id, .capture p l.epoch) := by
    rintro ⟨j, subscriber⟩ hmem hof
    cases subscriber with
    | host i => cases hof
    | capture q epoch =>
        obtain rfl : q = p := beq_iff_eq.1 hof
        obtain ⟨l', hlive', hd, hcapture', hepoch⟩ := hsubscribed.capturesWith d j q epoch hmem
        cases hlive.symm.trans hlive'
        rw [hcapture] at hcapture'
        cases hcapture'
        exact ⟨hd.symm, by rw [hepoch]⟩
  split
  · next hd =>
      subst hd
      exact (h.numbered _).filter_eq_singleton (h.hasCapture p l id hlive hcapture)
        (beq_self_eq_true p) fun a ha hof => (hown a ha hof).2
  · next hd =>
      exact List.filter_eq_nil_iff.2 fun a ha hof => hd (hown a ha hof).1

/-! ## Listeners of the host -/

theorem hostListeners_of_document_eq (h : w'.document d = w.document d) :
    w'.hostListeners d = w.hostListeners d := by
  rw [World.hostListeners, World.hostListeners, h]

theorem hostListeners_setDocument {e : Nat} {document : Document Subscriber}
    (hhost : (document.listeners.filter fun l => !l.2.isCapture) = w.hostListeners e) :
    (w.setDocument e document).hostListeners d = w.hostListeners d := by
  by_cases hd : d = e
  · subst hd
    rw [World.hostListeners, document_setDocument_self, hhost]
  · exact hostListeners_of_document_eq (document_setDocument_of_ne w document hd)

theorem hostListeners_attach (w : World) (p epoch e d : Nat) :
    (w.attach p epoch e).2.hostListeners d = w.hostListeners d := by
  refine hostListeners_setDocument ?_
  exact (List.filter_append ..).trans (List.append_nil _)

/-- A session that stops capturing takes off its own listener. -/
theorem hostListeners_detach (h : Enrolled w) (p d : Nat) (phase : Phase) :
    ((w.setPhase p phase).detach (w.phase p)).hostListeners d = w.hostListeners d := by
  obtain heq | ⟨l, id, hlive, hcapture, heq⟩ := (w.setPhase p phase).detach_cases (w.phase p)
  · rw [heq]
    rfl
  · rw [heq]
    refine hostListeners_setDocument (w := w.setPhase p phase) ?_
    exact (h.numbered l.document).filter_unlisten (h.hasCapture p l id hlive hcapture) rfl

theorem hostListeners_setSurface {e : Nat} {f : Surface → Surface}
    (hf : ∀ s, (f s).document = s.document) :
    { w with surfaces := w.surfaces.modify e f }.hostListeners d = w.hostListeners d := by
  refine hostListeners_of_document_eq ?_
  by_cases hd : d = e
  · subst hd
    rw [World.document, Table.get_modify_self, hf]
    rfl
  · rw [World.document, Table.get_modify_of_ne _ f hd]
    rfl

/-- No step takes off a listener of the host, or brings two of them into another order. -/
theorem hostListeners_worldStep (h : Enrolled w) (hstep : WorldStep w w') (d : Nat) :
    w'.hostListeners d = w.hostListeners d := by
  cases hstep with
  | text e t => exact hostListeners_setDocument rfl
  | unhook e => exact hostListeners_setSurface fun _ => rfl
  | note | receive | disconnect | release | emit | stay | offer | absorb | retune => rfl
  | send p peer m => exact hostListeners_of_document_eq (document_send w p peer m d)
  | vacate p => exact h.hostListeners_detach p d .idle
  | suspend p l s hlive =>
      rw [World.suspend, ← hlive]
      exact h.hostListeners_detach p d _
  | resume p epoch =>
      obtain ⟨heq, -⟩ | ⟨l, -, -, -, heq⟩ := w.resume_cases p epoch
      · rw [heq]
      · rw [heq]
        exact hostListeners_attach w p epoch l.document d
  | initiate p e participants s => exact hostListeners_attach (w.nextEpoch p).2 p _ e d
  | join => rfl

theorem hostListeners_worldSteps (h : Enrolled w) (hsteps : WorldSteps w w') (d : Nat) :
    w'.hostListeners d = w.hostListeners d := by
  have hinv := hsteps.invariant
    (P := fun v => Enrolled v ∧ v.hostListeners d = w.hostListeners d)
    (fun hstep hv => ⟨hv.1.worldStep hstep, (hv.1.hostListeners_worldStep hstep d).trans hv.2⟩)
    (fun _ _ hv => ⟨hv.1.modifyParty fun _ => rfl, hv.2⟩) ⟨h, rfl⟩
  exact hinv.2

end Enrolled

/-! ## Between calls -/

namespace World.Interlude

theorem enrolled (h : w.Interlude reactive) : Enrolled w := by
  induction h with
  | empty => exact ⟨fun d => .ofText [], nofun⟩
  | arranged _ harranged ih => exact ih.arranged harranged
  | call _ hcall ih => exact ih.worldSteps (worldSteps_perform hcall)

end World.Interlude

/-- Between calls, a party with a live session has exactly one listener, on the
document of the session and for its epoch, and a party without one has none on any document.
Every call leaves the listeners of the host on all documents, in the order in which they were
registered. -/
theorem captured_once (h : w.Interlude reactive) (p : Nat) :
    (∀ l, w.phase p = .live l → ∃ id, l.capture = some id ∧ ∀ d, w.ownListeners p d =
      if d = l.document then [(id, .capture p l.epoch)] else []) ∧
    ((∀ l, w.phase p ≠ .live l) → ∀ d, w.ownListeners p d = []) ∧
    ∀ depth c outcome w', perform (World.write depth) c w = .ok (outcome, w') →
      ∀ d, w'.hostListeners d = w.hostListeners d := by
  have hsubscribed := h.ready.subscribed
  refine ⟨fun l hlive => ?_, hsubscribed.ownListeners_eq_nil, fun depth c outcome w' hcall d => ?_⟩
  · obtain ⟨id, hcapture⟩ := Option.ne_none_iff_exists'.1 (h.pausesOnly p l hlive)
    exact ⟨id, hcapture, h.enrolled.ownListeners_eq hsubscribed hlive hcapture⟩
  · exact h.enrolled.hostListeners_worldSteps (worldSteps_perform hcall) d

/-- Bob has accepted into a document that his host listens to, and Alice's edit comes in.  Bob
captures again, there and nowhere else, and his host still listens. -/
theorem captured_once_after_update :
    let payload := Message.payload (.update ⟨⟨0, 1, []⟩, 1, 0⟩)
    ∃ w w' : World, ∃ o, w.Interlude (fun _ => True) ∧
      w.run (.handleMessage 1 (.ofByte 0xA1) payload) = .ok (o, w') ∧
      (∃ id epoch, ∀ d, w'.ownListeners 1 d = if d = 1 then [(id, .capture 1 epoch)] else []) ∧
      w'.hostListeners 1 = [(1, .host 0)] := by
  intro payload
  let alice : PeerId := .ofByte 0xA1
  let w₀ := ((Pair.idle ['a', 'b'] .usual).world.listen 1 []).2
  have hrun : ∃ w ∈ (w₀.runAll
        [.start 0 alice none (.ofByte 0xB0) [] 0, .handleNext 1, .accept 1 1]).toOption,
      ∃ r ∈ (w.run (.handleMessage 1 alice payload)).toOption,
        (r.2.phase 1).document = some 1 ∧ w.hostListeners 1 = [(1, .host 0)] := by
    decide +kernel
  obtain ⟨w, hw, ⟨o, w'⟩, hupdate, hdocument, hhost⟩ := hrun
  have hlistened : w₀.Interlude fun _ => True := .arranged (.idle ..) (.listen 1 [] nofun)
  have hinterlude := hlistened.runAll (eq_ok_of_mem_toOption hw)
  have hlast := eq_ok_of_mem_toOption hupdate
  refine ⟨w, w', o, hinterlude, hlast, ?_, ?_⟩
  · cases hphase : w'.phase 1 with
    | idle | offered =>
        rw [hphase] at hdocument
        cases hdocument
    | live l =>
        rw [hphase] at hdocument
        obtain ⟨id, -, hown⟩ := (captured_once (hinterlude.run hlast) 1).1 l hphase
        exact ⟨id, l.epoch, fun d => Option.some.inj hdocument ▸ hown d⟩
  · exact ((captured_once hinterlude 1).2.2 _ _ _ _ hlast 1).trans hhost

end Session

end PairEdit
