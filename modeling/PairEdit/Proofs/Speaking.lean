import PairEdit.Proofs.Replica
import PairEdit.Proofs.Runs
import PairEdit.Proofs.Wiring

/-!
# Speaking about a write

A write calls whoever listens to the document: each party with a session on it captures the
edit, registers it and sends it if it can.  Both parties may listen to one document, so a
write makes both of them speak.  `Speaks` says what becomes of a phase in this way and what
is sent, and `Wired.write` that a write comes down to it.
-/

namespace PairEdit

open Session

/-- The counters that a strategy tags updates with are machine words. -/
def Strategy.InWords : Strategy → Prop
  | .backlog b => b.sent ≤ Word.max ∧ b.received ≤ Word.max
  | .plain => True

namespace Strategy

variable {s s' : Strategy} {e : Edit} {u : Update} {n : Nat}

theorem inWords_start (kind : Kind) (role : Role) : (start kind role).InWords := by
  cases kind with
  | backlog => exact ⟨Nat.zero_le _, Nat.zero_le _⟩
  | plain => trivial

theorem register?_backlog_eq_some_iff {b : Backlog} :
    (Strategy.backlog b).register? e = some (u, s') ↔
      ∃ b', b.register? e = some (u, b') ∧ s' = .backlog b' := by
  simp [Strategy.register?, eq_comm]

theorem receive?_backlog_eq_some_iff {b : Backlog} :
    (Strategy.backlog b).receive? u = some (e, s') ↔
      ∃ b', b.receive? u = some (e, b') ∧ s' = .backlog b' := by
  simp [Strategy.receive?, eq_comm]

theorem skip?_backlog_eq_some_iff {b : Backlog} :
    (Strategy.backlog b).skip? n = some s' ↔ ∃ b', b.skip? n = some b' ∧ s' = .backlog b' := by
  simp [Strategy.skip?, eq_comm]

theorem InWords.register? (h : s.InWords) (hregister : s.register? e = some (u, s')) :
    s'.InWords ∧ u.sent ≤ Word.max ∧ u.seen ≤ Word.max := by
  cases s with
  | plain =>
      cases hregister
      exact ⟨trivial, Nat.zero_le _, Nat.zero_le _⟩
  | backlog b =>
      obtain ⟨b', hb', rfl⟩ := register?_backlog_eq_some_iff.1 hregister
      obtain ⟨hsent, rfl, rfl⟩ := Backlog.register?_eq_some_iff.1 hb'
      exact ⟨⟨hsent, h.2⟩, hsent, h.2⟩

theorem InWords.receive? (h : s.InWords) (hreceive : s.receive? u = some (e, s')) :
    s'.InWords := by
  cases s with
  | plain =>
      cases hreceive
      exact trivial
  | backlog b =>
      obtain ⟨b', hb', rfl⟩ := receive?_backlog_eq_some_iff.1 hreceive
      obtain ⟨hreceived, edits, -, rfl⟩ := Backlog.receive?_eq_some_iff.1 hb'
      refine ⟨?_, hreceived⟩
      show (b.retire u.seen).sent ≤ Word.max
      rw [Backlog.sent_retire]
      exact h.1

theorem InWords.skip? (h : s.InWords) (hskip : s.skip? n = some s') : s'.InWords := by
  cases s with
  | plain =>
      cases hskip
      exact trivial
  | backlog b =>
      obtain ⟨b', hb', rfl⟩ := skip?_backlog_eq_some_iff.1 hskip
      obtain ⟨hreceived, rfl⟩ := Backlog.skip?_eq_some_iff.1 hb'
      exact ⟨h.1, hreceived⟩

end Strategy

namespace Session

open Function

/-! ## Speaking -/

/-- What a party says while documents are written: every edit that it captures is
registered, and then it is sent if it can be. -/
inductive Speaks (limits : Limits) : Phase → List Message → Phase → Prop
  | silent (phase : Phase) : Speaks limits phase [] phase
  | capture {l : Live} {e : Edit} {u : Update} {s : Strategy} {out : List Message}
      {phase : Phase} : l.strategy.register? e = some (u, s) →
      Speaks limits (.live { l with strategy := s }) out phase →
      Speaks limits (.live l) ((Message.update u).leaving limits ++ out) phase

/-- The identities in a phase are those of the two parties, and its counters are words. -/
def Phase.Proper (ids : Fin 2 → PeerId) (p : Fin 2) : Phase → Prop
  | .idle => True
  | .offered o => o.participants = ⟨ids p, ids p.rev, ids p⟩
  | .live l => (l.participants = ⟨ids p, ids p, ids p.rev⟩ ∨
      l.participants = ⟨ids p, ids p.rev, ids p⟩) ∧ l.strategy.InWords

/-- A message to a party is made of words, and an offer says who it is from and for. -/
def Addressed (ids : Fin 2 → PeerId) (p : Fin 2) (m : Message) : Prop :=
  m.InWords ∧ ∀ offer, m = .start offer → offer.senderId = ids p.rev ∧ offer.receiverId = ids p

/-- A party has to do with its peer only. -/
structure Post.Proper (ids : Fin 2 → PeerId) (p : Fin 2) (s : Post) : Prop where
  phase : s.phase.Proper ids p
  epoch_le : ∀ l, s.phase = .live l → l.epoch ≤ s.epochs
  inbox : ∀ m ∈ s.inbox, Addressed ids p m

variable {ids : Fin 2 → PeerId} {configs : Fin 2 → Config} {limits : Limits}
variable {phase phase' phase'' : Phase} {out out' : List Message} {p : Fin 2}

theorem ids_ne_rev (hids : ids 0 ≠ ids 1) (p : Fin 2) : ids p ≠ ids p.rev := by
  match p with
  | 0 => exact hids
  | 1 => exact hids.symm

theorem other_eq_of_proper (hids : ids 0 ≠ ids 1) {l : Live} (h : (Phase.live l).Proper ids p) :
    l.participants.other = ids p.rev := by
  rcases h.1 with heq | heq
  · simp [heq, Participants.other, Participants.role]
  · simp [heq, Participants.other, Participants.role, ids_ne_rev hids p]

theorem Phase.Proper.other_eq (h : phase.Proper ids p) (hids : ids 0 ≠ ids 1)
    (hbusy : phase ≠ .idle) : phase.other = some (ids p.rev) := by
  cases phase with
  | idle => exact absurd rfl hbusy
  | offered o =>
      have hparticipants : o.participants = ⟨ids p, ids p.rev, ids p⟩ := h
      rw [other, hparticipants]
  | live l => exact congrArg some (other_eq_of_proper hids h)

namespace Speaks

theorem trans (h : Speaks limits phase out phase') (h' : Speaks limits phase' out' phase'') :
    Speaks limits phase (out ++ out') phase'' := by
  induction h with
  | silent phase => exact h'
  | capture hregister _ ih =>
      rw [List.append_assoc]
      exact .capture hregister (ih h')

theorem eq_of_not_live (h : Speaks limits phase out phase') (hphase : ∀ l, phase ≠ .live l) :
    phase' = phase ∧ out = [] := by
  cases h with
  | silent => exact ⟨rfl, rfl⟩
  | capture => exact absurd rfl (hphase _)

/-- Speaking changes nothing but the strategy of a session. -/
theorem of_live {l : Live} (h : Speaks limits (.live l) out phase') :
    ∃ s, phase' = .live { l with strategy := s } := by
  generalize hphase : Phase.live l = phase at h
  induction h generalizing l with
  | silent phase => exact ⟨l.strategy, hphase.symm⟩
  | capture hregister _ ih =>
      cases hphase
      obtain ⟨s', heq⟩ := ih rfl
      exact ⟨s', heq⟩

/-- What is said is updates, made of words. -/
theorem proper (h : Speaks limits phase out phase') (hproper : phase.Proper ids p) :
    phase'.Proper ids p ∧ ∀ m ∈ out, m.InWords ∧ ∃ u, m = .update u := by
  induction h with
  | silent phase => exact ⟨hproper, by simp⟩
  | @capture l e u s out phase hregister hrest ih =>
      obtain ⟨hwords, hsent, hseen⟩ := hproper.2.register? hregister
      obtain ⟨hphase, hout⟩ := ih ⟨hproper.1, hwords⟩
      refine ⟨hphase, fun m hm => ?_⟩
      rcases List.mem_append.1 hm with hm | hm
      · unfold Message.leaving at hm
        split at hm
        · next bytes hencode =>
            obtain rfl := List.mem_singleton.1 hm
            have hrange := Message.range_le_of_check (Message.encode_eq_ok_iff.1 hencode).1
            exact ⟨⟨by omega, by omega, hsent, hseen⟩, u, rfl⟩
        · cases hm
      · exact hout m hm

theorem document_eq (h : Speaks limits phase out phase') : phase'.document = phase.document := by
  cases phase with
  | idle | offered => rw [(h.eq_of_not_live (by simp)).1]
  | live l =>
      obtain ⟨s, rfl⟩ := h.of_live
      rfl

end Speaks

/-- What both parties say while one document is written. -/
structure BothSpeak (configs : Fin 2 → Config) (d : Nat) (posts : Fin 2 → Post)
    (out : Fin 2 → List Message) (posts' : Fin 2 → Post) : Prop where
  speaks : ∀ p, Speaks (configs p).limits (posts p).phase (out p) (posts' p).phase
  epochs_eq : ∀ p, (posts' p).epochs = (posts p).epochs
  inbox_eq : ∀ p, (posts' p).inbox = (posts p).inbox ++ out p.rev
  document : ∀ p, out p ≠ [] → (posts p).phase.document = some d

namespace BothSpeak

variable {d : Nat} {posts posts' posts'' : Fin 2 → Post} {out₁ out₂ : Fin 2 → List Message}

theorem refl (configs : Fin 2 → Config) (d : Nat) (posts : Fin 2 → Post) :
    BothSpeak configs d posts (fun _ => []) posts :=
  ⟨fun _ => .silent _, fun _ => rfl, fun _ => (List.append_nil _).symm, fun _ h => absurd rfl h⟩

theorem trans (h : BothSpeak configs d posts out₁ posts')
    (h' : BothSpeak configs d posts' out₂ posts'') :
    BothSpeak configs d posts (fun p => out₁ p ++ out₂ p) posts'' := by
  refine ⟨fun p => (h.speaks p).trans (h'.speaks p), ?_, ?_, ?_⟩
  · intro p
    rw [h'.epochs_eq, h.epochs_eq]
  · intro p
    rw [h'.inbox_eq, h.inbox_eq, List.append_assoc]
  · intro p hne
    by_cases hfirst : out₁ p = []
    · rw [← (h.speaks p).document_eq]
      refine h'.document p fun hsecond => hne ?_
      rw [hfirst, hsecond, List.append_nil]
    · exact h.document p hfirst

/-- One party captures an edit. -/
theorem capture {l : Live} {e : Edit} {u : Update} {s : Strategy}
    (hphase : (posts p).phase = .live l) (hregister : l.strategy.register? e = some (u, s))
    (hdocument : l.document = d) :
    BothSpeak configs d posts (update (fun _ => []) p
      ((Message.update u).leaving (configs p).limits))
      (update (update posts p ((posts p).setPhase (.live { l with strategy := s }))) p.rev
        ((posts p.rev).setInbox ((posts p.rev).inbox ++
          (Message.update u).leaving (configs p).limits))) := by
  have hself : ∀ s : Post, update (update posts p s) p.rev
      ((posts p.rev).setInbox ((posts p.rev).inbox ++
        (Message.update u).leaving (configs p).limits)) p = s := by
    intro s
    rw [update_of_ne (ne_rev p), update_self]
  have hspeaks : Speaks (configs p).limits (.live l) ((Message.update u).leaving (configs p).limits)
      (.live { l with strategy := s }) := by
    have hcapture : Speaks (configs p).limits _ _ _ := .capture hregister (.silent _)
    rwa [List.append_nil] at hcapture
  refine ⟨?_, ?_, ?_, ?_⟩ <;> intro q <;> rcases eq_or_eq_rev p q with rfl | rfl
  · rw [hself, update_self, hphase]
    exact hspeaks
  · rw [update_self, update_of_ne (rev_ne p)]
    exact .silent _
  · rw [hself]
    rfl
  · rw [update_self]
    rfl
  · rw [hself, update_of_ne (rev_ne q), List.append_nil]
    rfl
  · rw [update_self, Fin.rev_rev, update_self]
    rfl
  · intro _
    rw [hphase, Phase.document, hdocument]
  · intro hne
    rw [update_of_ne (rev_ne p)] at hne
    exact absurd rfl hne

end BothSpeak

namespace Wired

variable {posts : Fin 2 → Post} {w w' : World} {d : Nat}

/-- What a party does about an edit of a document that it listens to. -/
theorem capture (h : Wired ids configs posts w) (hids : ids 0 ≠ ids 1)
    (hproper : ∀ p, (posts p).phase.Proper ids p) {epoch : Nat} {e : Edit}
    (hlive : ∀ s, (posts p).phase = .live s → s.epoch = epoch → s.document = d)
    (hcapture : w.capture p epoch e = .ok w') :
    ∃ out posts', Wired ids configs posts' w' ∧ BothSpeak configs d posts out posts' := by
  have hregistered : ∀ l u s, w.phase p = .live l → l.epoch = epoch →
      l.strategy.register? e = some (u, s) → ∀ sent v,
      (w.setPhase p (.live { l with strategy := s })).send p l.participants.other (.update u) =
        (sent, v) →
      ∃ out posts', Wired ids configs posts' v ∧ BothSpeak configs d posts out posts' := by
    intro l u s hphase hepoch hregister sent v hresult
    rw [h.phase_eq] at hphase
    have hset := h.setLive { l with strategy := s } hphase rfl rfl
    have hsend := hset.send hids p (.update u)
    rw [update_of_ne (rev_ne p), ← other_eq_of_proper hids (hphase ▸ hproper p), hresult] at hsend
    exact ⟨_, _, hsend, .capture hphase hregister (hlive l hphase hepoch)⟩
  cases CaptureRun.of_capture hcapture with
  | skipped => exact ⟨_, posts, h, .refl configs d posts⟩
  | sent l u s hphase hepoch _ hregister hsend =>
      exact hregistered l u s hphase hepoch hregister _ _ hsend
  | unsent l u s reason hphase hepoch _ hregister hsend =>
      obtain ⟨out, posts', hw, hboth⟩ := hregistered l u s hphase hepoch hregister _ _ hsend
      exact ⟨out, posts', hw.emit p _, hboth⟩

/-- What both parties do when the listeners of a document are called. -/
theorem notify (h : Wired ids configs posts w) (hids : ids 0 ≠ ids 1)
    (hproper : ∀ p, (posts p).phase.Proper ids p) {caller : Caller} {e : Edit}
    {listeners : List (Nat × Subscriber)}
    (hlisteners : ∀ l ∈ listeners, ∃ (p : Fin 2) (epoch : Nat), l.2 = .capture p epoch ∧
      ∀ s, (posts p).phase = .live s → s.epoch = epoch → s.document = d)
    (hnotify : Document.notify (World.notifyOne caller) e listeners w = .ok w') :
    ∃ out posts', Wired ids configs posts' w' ∧ BothSpeak configs d posts out posts' := by
  induction listeners generalizing w posts with
  | nil =>
      cases hnotify
      exact ⟨_, posts, h, .refl configs d posts⟩
  | cons l rest ih =>
      obtain ⟨id, subscriber⟩ := l
      obtain ⟨p, epoch, rfl, hlive⟩ := hlisteners _ List.mem_cons_self
      obtain ⟨w₁, hone, hrest⟩ := bind_eq_ok_iff.1 hnotify
      obtain ⟨out₁, posts₁, hw₁, hboth₁⟩ := h.capture hids hproper hlive hone
      -- The sessions are the same ones as before, on the same documents.
      have hkept : ∀ l ∈ rest, ∃ (p : Fin 2) (epoch : Nat), l.2 = .capture p epoch ∧
          ∀ s, (posts₁ p).phase = .live s → s.epoch = epoch → s.document = d := by
        intro l hl
        obtain ⟨q, epoch', hl', hlive'⟩ := hlisteners l (List.mem_cons_of_mem _ hl)
        refine ⟨q, epoch', hl', ?_⟩
        intro s hs hepoch
        have hspeaks := hboth₁.speaks q
        cases hphase : (posts q).phase with
        | idle | offered =>
            rw [(hspeaks.eq_of_not_live (by simp [hphase])).1, hphase] at hs
            cases hs
        | live l =>
            rw [hphase] at hspeaks
            obtain ⟨strategy, heq⟩ := hspeaks.of_live
            rw [heq] at hs
            cases hs
            exact hlive' l hphase hepoch
      obtain ⟨out₂, posts₂, hw₂, hboth₂⟩ :=
        ih hw₁ (fun q => ((hboth₁.speaks q).proper (hproper q)).1) hkept hrest
      exact ⟨_, posts₂, hw₂, hboth₁.trans hboth₂⟩

/-- A write is refused, or the parties speak about it. -/
theorem write (h : Wired ids configs posts w) (hids : ids 0 ≠ ids 1)
    (hproper : ∀ p, (posts p).phase.Proper ids p) {depth : Nat} {e : Edit}
    {result : Except DocumentError Unit} (hwrite : World.write depth d e w = .ok (result, w')) :
    (∃ reason, result = .error reason ∧ w' = w) ∨ result = .ok () ∧
      ∃ out posts', Wired ids configs posts' w' ∧ BothSpeak configs d posts out posts' := by
  obtain ⟨caller, hvia⟩ : ∃ caller, World.write depth = World.writeVia caller := by
    cases depth with
    | zero => exact ⟨_, rfl⟩
    | succ depth => exact ⟨_, rfl⟩
  rw [hvia, World.writeVia, (h.surface d).1] at hwrite
  change Document.replaceIn (World.site d) (World.notifyOne caller) e w = _ at hwrite
  unfold Document.replaceIn at hwrite
  dsimp only at hwrite
  cases happly : e.apply ((World.site d).get w).text with
  | error reason =>
      rw [happly] at hwrite
      cases hwrite
      exact .inl ⟨_, rfl, rfl⟩
  | ok text =>
      rw [happly] at hwrite
      obtain ⟨w'', hnotify, hresult⟩ := bind_eq_ok_iff.1 hwrite
      cases hresult
      refine .inr ⟨rfl, (h.setText d text).notify hids hproper ?_ hnotify⟩
      intro l hl
      obtain ⟨p, epoch, hl', -, hlive⟩ := h.listening d l hl
      exact ⟨p, epoch, hl', hlive⟩

end Wired

end Session

end PairEdit
