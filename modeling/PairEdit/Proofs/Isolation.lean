import PairEdit.Proofs.Bookkeeping

/-!
# Sessions that keep apart

Messages do not say which session they belong to.  If every session is begun when nothing is
about that could be taken for a part of it, an update is only ever applied in the session in
which the peer captured it, from the document that the peer shared there.  Of what may be
about then each kind does harm on its own: there are runs in which an update goes astray for
want of just one of the conditions.
-/

namespace PairEdit.Session

open Function

namespace Ledger

/-- What may be about when a party begins a session. -/
inductive Hazard where
  /-- The peer has a session or an offer. -/
  | engagement
  /-- The peer has an offer of the party before it. -/
  | offer
  /-- The party has an offer of the peer before it. -/
  | counteroffer
  /-- The party has an update before it. -/
  | update
deriving DecidableEq, Repr

instance {P : Hazard → Prop} [DecidablePred P] : Decidable (∀ k, P k) :=
  decidable_of_iff (P .engagement ∧ P .offer ∧ P .counteroffer ∧ P .update) <| by
    constructor
    · rintro ⟨h₁, h₂, h₃, h₄⟩ (_ | _ | _ | _) <;> assumption
    · exact fun h => ⟨h _, h _, h _, h _⟩

/-- A party that begins a session now begins it with the hazard. -/
def Hazard.Threatens (b : Ledger) (p : Fin 2) : Hazard → Prop
  | engagement => b.session p.rev ≠ none
  | offer => ∃ l ∈ b.mail p.rev, l.IsStart
  | counteroffer => ∃ l ∈ b.mail p, l.IsStart
  | update => ∃ l ∈ b.mail p, l.IsUpdate

instance (b : Ledger) (p : Fin 2) : (k : Hazard) → Decidable (k.Threatens b p)
  | .engagement => inferInstanceAs (Decidable (b.session p.rev ≠ none))
  | .offer => inferInstanceAs (Decidable (∃ l ∈ b.mail p.rev, l.IsStart))
  | .counteroffer => inferInstanceAs (Decidable (∃ l ∈ b.mail p, l.IsStart))
  | .update => inferInstanceAs (Decidable (∃ l ∈ b.mail p, l.IsUpdate))

/-- Letters that do no harm in a session: no offers, and no updates of another session. -/
def Harmless (s : SessionId) (letters : List Letter) : Prop :=
  ∀ l ∈ letters, ¬ l.IsStart ∧ (l.IsUpdate → l.mark.session = s)

/-- How a party stands to a session, by the session that it is in and its mail. -/
inductive Participation (s : SessionId) : Option SessionId → List Letter → Prop
  | apart {mail : List Letter} : (∀ l ∈ mail, ¬ l.IsStart) → Participation s none mail
  /-- The offer is on the way; what came before it is lost on an idle party. -/
  | awaits {stale coming : List Letter} {l : Letter} : l.IsStart → l.mark.session = s →
      (∀ x ∈ stale, ¬ x.IsStart) → Harmless s coming → Participation s none (stale ++ l :: coming)
  | takesPart {mail : List Letter} : Harmless s mail → Participation s (some s) mail

/-- Both parties have to do with one session at most. -/
def Isolated (b : Ledger) : Prop := ∃ s, ∀ p, Participation s (b.session p) (b.mail p)

variable {fits : Fin 2 → Prop} {b : Ledger} {p : Fin 2} {s s' : SessionId}
variable {session : Option SessionId} {mail kept posted rest : List Letter} {l : Letter}
variable {epochs : Nat}

theorem Updates.harmless (h : Updates s posted) : Harmless s posted :=
  fun l hl => ⟨(h l hl).1.not_isStart, fun _ => (h l hl).2⟩

theorem Stopped.harmless (h : Stopped fits p s' posted) (s : SessionId) : Harmless s posted := by
  rcases h with ⟨-, l, hl, -, rfl⟩ | ⟨-, rfl⟩
  · intro x hx
    obtain rfl := List.mem_singleton.1 hx
    exact ⟨hl.not_isStart, fun hu => absurd hu hl.not_isUpdate⟩
  · intro x hx
    cases hx

theorem Harmless.append (h : Harmless s mail) (h' : Harmless s posted) :
    Harmless s (mail ++ posted) := by
  intro l hl
  rcases List.mem_append.1 hl with hl | hl
  · exact h l hl
  · exact h' l hl

theorem Harmless.of_cons (h : Harmless s (l :: rest)) : Harmless s rest :=
  fun x hx => h x (List.mem_cons_of_mem _ hx)

namespace Participation

/-- What the peer posts in the session does not change how a party takes part in it. -/
theorem receives (h : Participation s session mail) (hposted : Harmless s posted) :
    Participation s session (mail ++ posted) := by
  cases h with
  | apart hmail =>
      refine .apart fun l hl => ?_
      rcases List.mem_append.1 hl with hl | hl
      · exact hmail l hl
      · exact (hposted l hl).1
  | awaits hl hs hstale hcoming =>
      rw [List.append_assoc, List.cons_append]
      exact .awaits hl hs hstale (hcoming.append hposted)
  | takesPart hmail => exact .takesPart (hmail.append hposted)

/-- An idle party that passes over a letter stands as before. -/
theorem ignores (h : Participation s none (l :: rest)) (hl : ¬ l.IsStart) :
    Participation s none rest := by
  generalize hmail : l :: rest = mail at h
  generalize hsession : (none : Option SessionId) = session at h
  cases h with
  | apart hletters =>
      subst hmail
      exact .apart fun x hx => hletters x (List.mem_cons_of_mem _ hx)
  | @awaits stale coming l' hl' hs hstale hcoming =>
      cases stale with
      | nil =>
          cases hmail
          exact absurd hl' hl
      | cons x stale =>
          cases hmail
          exact .awaits hl' hs (fun y hy => hstale y (List.mem_cons_of_mem _ hy)) hcoming
  | takesPart => cases hsession

/-- The offer that an idle party takes is the one of the session. -/
theorem isOffered (h : Participation s none (l :: rest)) (hl : l.IsStart) :
    l.mark.session = s ∧ Harmless s rest := by
  generalize hmail : l :: rest = mail at h
  generalize hsession : (none : Option SessionId) = session at h
  cases h with
  | apart hletters => exact absurd hl (hletters l (hmail ▸ List.mem_cons_self))
  | @awaits stale coming l' hl' hs hstale hcoming =>
      cases stale with
      | nil =>
          cases hmail
          exact ⟨hs, hcoming⟩
      | cons x stale =>
          cases hmail
          exact absurd hl (hstale l List.mem_cons_self)
  | takesPart => cases hsession

/-- A party in a session is in the one session, and its mail is harmless there. -/
theorem of_some (h : Participation s (some s') mail) : s' = s ∧ Harmless s mail := by
  cases h
  exact ⟨rfl, ‹_›⟩

/-- A party that leaves stands apart. -/
theorem leaves (h : Harmless s mail) : Participation s none mail := .apart fun l hl => (h l hl).1

end Participation

/-- A turn keeps the parties to one session if it does so for the party itself, and what it
posts does no harm. -/
theorem Isolated.of_turn (hself : Participation s session kept)
    (hrev : Participation s (b.session p.rev) (b.mail p.rev)) (hposted : Harmless s posted) :
    (b.turn p session kept posted epochs).Isolated := by
  refine ⟨s, fun q => ?_⟩
  rcases eq_or_eq_rev p q with rfl | rfl
  · rwa [session_turn_self, mail_turn_self]
  · rw [session_turn_rev, mail_turn_rev]
    exact hrev.receives hposted

namespace Isolated

theorem act (h : b.Isolated) (hact : Act fits p b session kept posted) :
    (b.turn p session kept posted epochs).Isolated := by
  obtain ⟨s, hpart⟩ := h
  have hself := hpart p
  have hrev := hpart p.rev
  have hnone : Harmless s [] := fun _ hl => by cases hl
  cases hact with
  | rests => exact .of_turn hself hrev hnone
  | speaks hsession hupdates =>
      rw [hsession] at hself
      obtain ⟨rfl, -⟩ := hself.of_some
      exact .of_turn hself hrev hupdates.harmless
  | quits hsession hstopped =>
      rw [hsession] at hself
      obtain ⟨rfl, hmail⟩ := hself.of_some
      exact .of_turn (.leaves hmail) hrev (hstopped.harmless _)
  | ignores hsession hmail hl =>
      rw [hsession, hmail] at hself
      exact .of_turn (hself.ignores hl) hrev hnone
  | isOffered hsession hmail hl =>
      rw [hsession, hmail] at hself
      obtain ⟨rfl, hrest⟩ := hself.isOffered hl
      exact .of_turn (.takesPart hrest) hrev hnone
  | refuses hsession hmail hl hstopped =>
      rw [hsession, hmail] at hself
      obtain ⟨rfl, hmail⟩ := hself.of_some
      exact .of_turn (.takesPart hmail.of_cons) hrev (hstopped.harmless _)
  | applies hsession hmail hl hupdates =>
      rw [hsession, hmail] at hself
      obtain ⟨rfl, hmail⟩ := hself.of_some
      exact .of_turn (.takesPart hmail.of_cons) hrev hupdates.harmless
  | breaks hsession hmail hl hstopped =>
      rw [hsession, hmail] at hself
      obtain ⟨rfl, hmail⟩ := hself.of_some
      exact .of_turn (.leaves hmail.of_cons) hrev (hstopped.harmless _)

theorem leaves (h : b.Isolated) (hleaves : Leaves p b s l rest) :
    (b.turn p none rest [] epochs).Isolated := by
  obtain ⟨s, hpart⟩ := h
  have hself := hpart p
  rw [hleaves.session_eq, hleaves.mail_eq] at hself
  obtain ⟨rfl, hmail⟩ := hself.of_some
  exact .of_turn (.leaves hmail.of_cons) (hpart p.rev) fun _ hl => by cases hl

/-- A session that is begun without hazards is apart from all others. -/
theorem of_begins (hbegins : Begins fits p b s posted epochs)
    (hclear : ∀ k : Hazard, ¬ k.Threatens b p) :
    (b.turn p (some s) (b.mail p) posted epochs).Isolated := by
  have hsession : b.session p.rev = none := not_not.1 (hclear .engagement)
  have hmail : Harmless s (b.mail p) := fun l hl =>
    ⟨fun hstart => hclear .counteroffer ⟨l, hl, hstart⟩,
      fun hupdate => absurd ⟨l, hl, hupdate⟩ (hclear .update)⟩
  have hstale : ∀ l ∈ b.mail p.rev, ¬ l.IsStart := fun l hl hstart => hclear .offer ⟨l, hl, hstart⟩
  refine ⟨s, fun q => ?_⟩
  rcases eq_or_eq_rev p q with rfl | rfl
  · rw [session_turn_self, mail_turn_self]
    exact .takesPart hmail
  · rw [session_turn_rev, mail_turn_rev, hsession]
    rcases hbegins.posted with rfl | ⟨-, l, hstart, hs, rfl⟩
    · rw [List.append_nil]
      exact .apart hstale
    · exact .awaits hstart hs hstale fun _ hx => by cases hx

/-- Every call keeps the parties to one session, if none is begun with a hazard. -/
theorem step {new : Prop} {handled : Option Letter} {b' : Ledger} (h : b.Isolated)
    (hstep : Step fits p new handled b b')
    (hclear : new → ∀ k : Hazard, ¬ k.Threatens b p) : b'.Isolated := by
  cases hstep with
  | intro heffect hact =>
      refine Isolated.act ?_ hact
      cases heffect with
      | act hown _ => exact h.act hown
      | begins hnew hbegins => exact .of_begins hbegins (hclear hnew)
      | leaves _ hleaves => exact h.leaves hleaves

/-- The mail of a party with a session or an offer is harmless there. -/
theorem harmless (h : b.Isolated) (hsession : b.session p = some s) : Harmless s (b.mail p) := by
  obtain ⟨s', hpart⟩ := h
  have hself := hpart p
  rw [hsession] at hself
  obtain ⟨rfl, hmail⟩ := hself.of_some
  exact hmail

end Isolated

end Ledger

open Ledger

variable {ids : Fin 2 → PeerId} {configs : Fin 2 → Config} {texts : List Text}
variable {posts posts' : Fin 2 → Post} {n : Chronicle} {w' : World} {p : Fin 2} {c : Call}

namespace Chronicle

/-- Sessions are begun without the hazards of some kinds. -/
def Avoids (hazards : Hazard → Prop) (n : Chronicle) (_ : Call) (w' : World) : Prop :=
  ∀ p, n.Starts w' p → ∀ k, hazards k → ¬ k.Threatens n.ledger p

instance (hazards : Hazard → Prop) [DecidablePred hazards] (n : Chronicle) (c : Call)
    (w' : World) : Decidable (Avoids hazards n c w') :=
  inferInstanceAs (Decidable (∀ p, n.Starts w' p → ∀ k, hazards k → ¬ k.Threatens n.ledger p))

/-- Every update that is on the way was captured from the document of its session. -/
def Captured (n : Chronicle) : Prop :=
  ∀ p, ∀ l ∈ n.mail p, l.IsUpdate → ∃ d, l.mark.shared = some d ∧ l.mark.written = some d

/-- A party that handles the oldest message to it has a session or an offer before and
after.  An update is applied then, since one that cannot be applied ends what the party
has. -/
def Stays (n : Chronicle) (p : Fin 2) : Prop :=
  n.world.phase p ≠ .idle ∧
    ∃ r ∈ (n.world.run (.handleNext p)).toOption, r.2.phase p ≠ .idle

/-- The oldest message to a party is an update that it applies, which was not captured for
the session that it has. -/
def Strays (n : Chronicle) (p : Fin 2) : Prop :=
  n.Stays p ∧ ∃ l ∈ n.oldest? p, l.IsUpdate ∧ (n.notes p).session ≠ some l.mark.session

instance (n : Chronicle) (p : Fin 2) : Decidable (n.Stays p) :=
  inferInstanceAs (Decidable (_ ∧ _))

instance (n : Chronicle) (p : Fin 2) : Decidable (n.Strays p) :=
  inferInstanceAs (Decidable (_ ∧ _))

theorem exists_mail_eq_of_oldest? {l : Letter} (h : n.oldest? p = some l) :
    ∃ rest, n.mail p = l :: rest := by
  obtain ⟨x, hx, hl⟩ := Option.bind_eq_some_iff.1 h
  obtain ⟨rest, hrest⟩ := List.head?_eq_some_iff.1 hx
  exact ⟨_, by rw [mail, hrest, List.filterMap_cons, hl]⟩

end Chronicle

theorem isolated_opening : (Chronicle.opening ids configs texts).ledger.Isolated :=
  ⟨⟨0, 0⟩, fun p => .apart <| by simp [Chronicle.ledger, Chronicle.mail_opening]⟩

/-- What is new in the mail of a party was sent in the call. -/
theorem Episode.captured {taken : Option Message} {out : Fin 2 → List Message}
    (h : Episode ids configs n c w' p taken posts out posts') (hdistinct : Distinct ids configs)
    (hcaptured : n.Captured) : (n.next c w').Captured := by
  intro q l hl hupdate
  rw [h.mail_next, List.mem_append] at hl
  rcases hl with hold | hnew
  · refine hcaptured q l ?_ hupdate
    rw [h.told.mail_eq_handled_append c]
    exact List.mem_append_right _ hold
  · obtain ⟨m, hm, hread⟩ := List.mem_filterMap.1 hnew
    obtain ⟨mark, hmark, hread⟩ := Option.bind_eq_some_iff.1 hread
    have hwords := (((h.told_next hdistinct).proper q).inbox m
      (h.inbox_eq q ▸ List.mem_append_right _ hm)).1
    obtain rfl := eq_of_readLetter? (hdistinct.messageBytes_le q) hwords hread
    obtain ⟨u, rfl⟩ := hupdate
    obtain ⟨d, hwritten, hdocument⟩ := h.moves.document q.rev u hm
    obtain ⟨s, -, rfl⟩ := Option.map_eq_some_iff.1 hmark
    rw [← (h.phase_eq q.rev).2] at hdocument
    exact ⟨d, hdocument, hwritten⟩

namespace Chronicle

/-- In runs in which sessions are begun without hazards, an update that a party applies, to
its document or to the text that it is offered, was captured by the peer in the very session
that the party has, from the document that the peer shared there. -/
theorem update_of_own_session (hdistinct : Distinct ids configs)
    (h : Reachable ids configs texts (Avoids fun _ => True) n) {l : Letter}
    (hl : n.oldest? p = some l) (hupdate : l.IsUpdate) (hphase : n.world.phase p ≠ .idle) :
    (n.notes p).session = some l.mark.session ∧
      ∃ d, l.mark.shared = some d ∧ l.mark.written = some d := by
  obtain ⟨posts, htold, hisolated, hcaptured⟩ := h.invariant
    (P := fun _ n => n.ledger.Isolated ∧ n.Captured) hdistinct
    ⟨isolated_opening, by simp [Captured, mail_opening]⟩ <| by
      rintro n c w' p taken posts out posts' ⟨hisolated, hcaptured⟩ havoids hepisode
      exact ⟨hisolated.step (hepisode.step hdistinct) fun hstarts k => havoids p hstarts k trivial,
        hepisode.captured hdistinct hcaptured⟩
  rw [htold.wired.phase_eq, ne_eq, ← htold.idle p] at hphase
  obtain ⟨rest, hmail⟩ := exists_mail_eq_of_oldest? hl
  have hmem : l ∈ n.mail p := hmail ▸ List.mem_cons_self
  obtain ⟨s, hs⟩ := Option.ne_none_iff_exists'.1 hphase
  rw [hs, (hisolated.harmless hs l hmem).2 hupdate]
  exact ⟨rfl, hcaptured p l hmem hupdate⟩

/-- A session is ended with an update still on the way to the peer, and in the next one the
peer is offered the text and hears of an edit of it. -/
theorem update_of_own_session_again :
    let ids : Fin 2 → PeerId := fun p => .ofByte (if p = 0 then 0xA1 else 0xB0)
    let texts : List Text := ["hello".toList, "stale".toList]
    ∃ n l, Reachable ids (fun _ => .usual) texts (Avoids fun _ => True) n ∧
      n.oldest? 1 = some l ∧ l.IsUpdate ∧ n.world.phase 1 ≠ .idle ∧
      (n.notes 1).session = some l.mark.session ∧
      ∃ d, l.mark.shared = some d ∧ l.mark.written = some d := by
  intro ids texts
  have hrun : ∃ n ∈ (opening ids (fun _ => .usual) texts).run? (Avoids fun _ => True)
      [.start 0 (ids 0) none (ids 1) [] 0, .handleNext 1, .accept 1 1, .edit 0 ⟨0, 0, ['X']⟩,
        .stop 1, .handleNext 0, .start 0 (ids 0) none (ids 1) [] 0, .handleNext 1, .handleNext 1,
        .edit 0 ⟨0, 0, ['Y']⟩],
      ∃ l ∈ n.oldest? 1, l.IsUpdate ∧ n.world.phase 1 ≠ .idle := by
    decide +kernel
  obtain ⟨n, hn, l, hl, hupdate, hphase⟩ := hrun
  have hreachable := Reachable.init.run? (by decide) hn
  exact ⟨n, l, hreachable, hl, hupdate, hphase,
    update_of_own_session ⟨by decide, fun _ => by decide⟩ hreachable hl hupdate hphase⟩

/-- Calls that the parties make after one another, and come to where an update strays. -/
theorem exists_strays {hazards : Hazard → Prop} [DecidablePred hazards] (calls : List Call)
    (hcalls : ∀ c ∈ calls, Interaction c)
    (hrun : ∃ n ∈ (opening ids configs texts).run? (Avoids hazards) calls, n.Strays p) :
    ∃ n, Reachable ids configs texts (Avoids hazards) n ∧ n.Strays p := by
  obtain ⟨n, hn, hstrays⟩ := hrun
  exact ⟨n, Reachable.init.run? hcalls hn, hstrays⟩

/-- Any one hazard is enough for an update to be applied out of its session. -/
theorem exists_strays_of_hazard :
    let ids : Fin 2 → PeerId := fun p => .ofByte (if p = 0 then 0xA1 else 0xB0)
    let texts : List Text := ["hello".toList, "stale".toList, "fresh".toList]
    let stray (k : Hazard) (p : Fin 2) : Prop :=
      ∃ n, Reachable ids (fun _ => .usual) texts (Avoids (· ≠ k)) n ∧ n.Strays p
    stray .engagement 1 ∧ stray .offer 0 ∧ stray .counteroffer 1 ∧ stray .update 1 := by
  intro ids texts stray
  refine ⟨?_, ?_, ?_, ?_⟩
  -- The peer declines, and makes an offer before the other party has heard of that.
  · exact exists_strays [.start 0 (ids 0) none (ids 1) [] 0, .handleNext 1, .decline 1,
      .start 1 (ids 1) none (ids 0) [] 1, .edit 0 ⟨0, 0, ['X']⟩]
      (by decide +kernel) (by decide +kernel)
  -- An offer is taken back and made anew, and the peer accepts the first one.
  · exact exists_strays [.start 0 (ids 0) none (ids 1) [] 0, .stop 0,
      .start 0 (ids 0) none (ids 1) [] 2, .handleNext 1, .accept 1 1, .edit 1 ⟨0, 0, ['X']⟩]
      (by decide +kernel) (by decide +kernel)
  -- The peer makes an offer with another one before it, and what came before that stops it.
  · exact exists_strays [.start 0 (ids 0) none (ids 1) [] 0, .stop 0, .handleNext 1,
      .decline 1, .start 0 (ids 0) none (ids 1) [] 0, .handleNext 0,
      .start 1 (ids 1) none (ids 0) [] 1, .handleNext 0, .accept 0 2, .edit 2 ⟨0, 0, ['X']⟩,
      .handleNext 1, .handleNext 1] (by decide +kernel) (by decide +kernel)
  -- An offer is declined that has been edited in the meantime.
  · exact exists_strays [.start 0 (ids 0) none (ids 1) [] 0, .edit 0 ⟨0, 0, ['X']⟩,
      .stop 0, .handleNext 1, .decline 1, .start 1 (ids 1) none (ids 0) [] 1]
      (by decide +kernel) (by decide +kernel)

end Chronicle

end PairEdit.Session
