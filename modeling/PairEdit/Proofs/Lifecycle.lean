import PairEdit.Proofs.Bookkeeping

/-!
# What becomes of a session

A session is offered, taken, left by the one and by the other party.  What is on the way of
its offer and its stops goes with who is in it, in one of a few ways, as long as every offer
can be read and no party takes the stop of one session for that of another.  Once nothing is
on the way any more, the session is either over or shared by both parties, who then agree on
whose offer it was.
-/

namespace PairEdit.Session

open Function

/-- What a letter has to do with the life of a session. -/
inductive Notice where
  | offer
  | farewell
deriving DecidableEq, Repr

/-- The part of a letter in the life of a session. -/
def Letter.notice? (s : SessionId) (l : Letter) : Option Notice :=
  if l.mark.session = s then
    match l.message with
    | .start _ => some .offer
    | .update _ => none
    | .stop => some .farewell
  else none

/-- What some letters have to do with the life of a session. -/
def notices (s : SessionId) (letters : List Letter) : List Notice :=
  letters.filterMap (Letter.notice? s)

namespace Ledger

/-! ## The life of one session -/

/-- What may have become of a session: who is in it, and what notices of it are on the way
to whom. -/
inductive Fate (fits : Fin 2 → Prop) (s : SessionId) (present : Fin 2 → Prop)
    (letters : Fin 2 → List Notice) : Prop
  | past : (∀ r, ¬ present r) → (∀ r, ∀ x ∈ letters r, x = .farewell) → Fate fits s present letters
  | offering : (∀ r, fits r) → present s.initiator → ¬ present s.initiator.rev →
      letters s.initiator = [] → letters s.initiator.rev = [.offer] → Fate fits s present letters
  | withdrawn : (∀ r, fits r) → (∀ r, ¬ present r) → letters s.initiator = [] →
      letters s.initiator.rev = [.offer, .farewell] → Fate fits s present letters
  | shared : (∀ r, fits r) → (∀ r, present r) → (∀ r, letters r = []) → Fate fits s present letters
  /-- The one party has left, and the other has not heard of it. -/
  | left (r : Fin 2) : (∀ r, fits r) → ¬ present r → present r.rev → letters r = [] →
      letters r.rev = [.farewell] → Fate fits s present letters

/-- A turn of a party, as far as one session goes. -/
structure Shift (r : Fin 2) (present : Fin 2 → Prop) (letters : Fin 2 → List Notice)
    (present' : Fin 2 → Prop) (letters' : Fin 2 → List Notice) (taken sent : List Notice) :
    Prop where
  present_rev : present' r.rev ↔ present r.rev
  taken : letters r = taken ++ letters' r
  sent : letters' r.rev = letters r.rev ++ sent

theorem forall_fin_two_iff (r : Fin 2) {P : Fin 2 → Prop} : (∀ x, P x) ↔ P r ∧ P r.rev := by
  constructor
  · exact fun h => ⟨h r, h r.rev⟩
  · rintro ⟨h, hrev⟩ x
    rcases eq_or_eq_rev r x with rfl | rfl
    · exact h
    · exact hrev

namespace Fate

variable {fits : Fin 2 → Prop} {s : SessionId} {present present' : Fin 2 → Prop}
variable {letters letters' : Fin 2 → List Notice} {r : Fin 2}

/-- Whoever is in a session fits the other party, and so it is with whoever is offered one. -/
theorem fits_of_present (h : Fate fits s present letters) (hr : present r) : ∀ r, fits r := by
  cases h with
  | past hout _ => exact absurd hr (hout r)
  | offering hfits | withdrawn hfits | shared hfits | left _ hfits => exact hfits

theorem fits_of_offer (h : Fate fits s present letters) (hr : .offer ∈ letters r) :
    ∀ r, fits r := by
  cases h with
  | past _ hfarewell => cases hfarewell r _ hr
  | offering hfits | withdrawn hfits | shared hfits | left _ hfits => exact hfits

/-- An offer is on the way to the other party than the one that made it. -/
theorem initiator_eq_of_offer (h : Fate fits s present letters) (hr : .offer ∈ letters r) :
    s.initiator = r.rev := by
  cases h with
  | past _ hfarewell => cases hfarewell r _ hr
  | offering _ _ _ hnil _ | withdrawn _ _ hnil _ =>
      rcases eq_or_eq_rev s.initiator r with rfl | rfl
      · rw [hnil] at hr
        cases hr
      · exact (Fin.rev_rev _).symm
  | shared _ _ hnil =>
      rw [hnil] at hr
      cases hr
  | left x _ _ _ hnil hfarewell =>
      rcases eq_or_eq_rev x r with rfl | rfl
      · rw [hnil] at hr
        cases hr
      · rw [hfarewell] at hr
        simp at hr

/-- What does not touch the session leaves it as it is. -/
theorem same (h : Fate fits s present letters) (hpresent : ∀ r, present' r ↔ present r)
    (hletters : ∀ r, letters' r = letters r) : Fate fits s present' letters' := by
  obtain rfl : present' = present := funext fun r => propext (hpresent r)
  obtain rfl : letters' = letters := funext hletters
  exact h

/-- A party begins the session. -/
theorem begins (hfits : ∀ r, fits r) (hr : s.initiator = r)
    (hshift : Shift r present letters present' letters' [] [.offer])
    (hpresent : present' r) (hout : ∀ r, ¬ present r) (hnil : ∀ r, letters r = []) :
    Fate fits s present' letters' := by
  subst hr
  refine .offering hfits hpresent ?_ ?_ ?_
  · exact mt hshift.present_rev.1 (hout _)
  · exact hshift.taken.symm.trans (hnil _)
  · rw [hshift.sent, hnil]
    rfl

/-- A party that is in the session leaves it, and says so. -/
theorem quits (h : Fate fits s present letters)
    (hshift : Shift r present letters present' letters' [] [.farewell]) (hr : present r)
    (hr' : ¬ present' r) : Fate fits s present' letters' := by
  have hsent := hshift.sent
  have htaken : letters r = letters' r := hshift.taken
  cases h with
  | past hout _ => exact absurd hr (hout r)
  | offering hfits _ hout hnil hoffer =>
      obtain rfl : r = s.initiator := (eq_or_eq_rev _ _).resolve_right fun hrev => hout (hrev ▸ hr)
      refine .withdrawn hfits ((forall_fin_two_iff s.initiator).2 ⟨hr', ?_⟩) ?_ ?_
      · exact mt hshift.present_rev.1 hout
      · rw [← htaken, hnil]
      · rw [hsent, hoffer]
        rfl
  | withdrawn _ hout => exact absurd hr (hout r)
  | shared hfits hin hnil =>
      refine .left r hfits hr' (hshift.present_rev.2 (hin _)) ?_ ?_
      · rw [← htaken, hnil]
      · rw [hsent, hnil]
        rfl
  | left x hfits hout hin hnil hfarewell =>
      obtain rfl : r = x.rev := (eq_or_eq_rev _ _).resolve_left fun hx => hout (hx ▸ hr)
      rw [Fin.rev_rev] at hsent
      refine .past ((forall_fin_two_iff x.rev).2 ⟨hr', ?_⟩) ((forall_fin_two_iff x).2 ⟨?_, ?_⟩)
      · rw [hshift.present_rev, Fin.rev_rev]
        exact hout
      · rw [hsent, hnil]
        simp
      · rw [← htaken, hfarewell]
        simp

/-- A party leaves the session because of a notice of it. -/
theorem leaves (h : Fate fits s present letters)
    (hshift : Shift r present letters present' letters' [.farewell] []) (hr : present r)
    (hr' : ¬ present' r) : Fate fits s present' letters' := by
  have hsent := hshift.sent
  have htaken := hshift.taken
  rw [List.append_nil] at hsent
  cases h with
  | past hout _ => exact absurd hr (hout r)
  | offering _ _ hout hnil _ =>
      obtain rfl : r = s.initiator := (eq_or_eq_rev _ _).resolve_right fun hrev => hout (hrev ▸ hr)
      rw [hnil] at htaken
      cases htaken
  | withdrawn _ hout => exact absurd hr (hout r)
  | shared _ _ hnil =>
      rw [hnil] at htaken
      cases htaken
  | left x _ hout _ hnil hfarewell =>
      obtain rfl : r = x.rev := (eq_or_eq_rev _ _).resolve_left fun hx => hout (hx ▸ hr)
      rw [hfarewell] at htaken
      rw [Fin.rev_rev, hnil] at hsent
      have hrest : letters' x.rev = [] := (List.cons.inj htaken).2.symm
      refine .past ((forall_fin_two_iff x.rev).2 ⟨hr', ?_⟩) ((forall_fin_two_iff x).2 ⟨?_, ?_⟩)
      · rw [hshift.present_rev, Fin.rev_rev]
        exact hout
      · simp [hsent]
      · simp [hrest]

/-- A party with the offer of a session before it is not in the session, and whoever made it
is, or has taken it back. -/
theorem of_offer (h : Fate fits s present letters) {rest : List Notice}
    (hletters : letters r = .offer :: rest) :
    (∀ r, fits r) ∧ ¬ present r ∧ letters r.rev = [] ∧
      (present r.rev ∧ rest = [] ∨ ¬ present r.rev ∧ rest = [.farewell]) := by
  have hoffer : .offer ∈ letters r := hletters ▸ List.mem_cons_self
  have hr := h.initiator_eq_of_offer hoffer
  cases h with
  | past _ hfarewell => cases hfarewell r _ hoffer
  | offering hfits hin hout hnil hone =>
      rw [hr] at hin hout hnil hone
      rw [Fin.rev_rev] at hout
      rw [Fin.rev_rev, hletters] at hone
      exact ⟨hfits, hout, hnil, .inl ⟨hin, (List.cons.inj hone).2⟩⟩
  | withdrawn hfits hout hnil htwo =>
      rw [hr] at hnil htwo
      rw [Fin.rev_rev, hletters] at htwo
      exact ⟨hfits, hout _, hnil, .inr ⟨hout _, (List.cons.inj htwo).2⟩⟩
  | shared _ _ hnil =>
      rw [hnil] at hletters
      cases hletters
  | left x _ _ _ hnil hfarewell =>
      rcases eq_or_eq_rev x r with rfl | rfl
      · rw [hnil] at hletters
        cases hletters
      · rw [hfarewell] at hletters
        cases (List.cons.inj hletters).1

/-- A party that is not in the session takes its offer. -/
theorem isOffered (h : Fate fits s present letters)
    (hshift : Shift r present letters present' letters' [.offer] []) (hr' : present' r) :
    Fate fits s present' letters' := by
  have hsent := hshift.sent
  rw [List.append_nil] at hsent
  have htaken : letters r = .offer :: letters' r := hshift.taken
  obtain ⟨hfits, -, hnil, hcases⟩ := h.of_offer htaken
  rcases hcases with ⟨hin, hrest⟩ | ⟨hout, hrest⟩
  · refine .shared hfits ((forall_fin_two_iff r).2 ⟨hr', hshift.present_rev.2 hin⟩)
      ((forall_fin_two_iff r).2 ⟨hrest, ?_⟩)
    rw [hsent, hnil]
  · refine .left r.rev hfits (mt hshift.present_rev.1 hout) ?_ ?_ ?_
    · rwa [Fin.rev_rev]
    · rw [hsent, hnil]
    · rw [Fin.rev_rev, hrest]

/-- A party refuses the offer of the session, and says so. -/
theorem refuses (h : Fate fits s present letters)
    (hshift : Shift r present letters present' letters' [.offer] [.farewell])
    (hpresent : present' r ↔ present r) : Fate fits s present' letters' := by
  have hsent := hshift.sent
  have htaken : letters r = .offer :: letters' r := hshift.taken
  obtain ⟨hfits, hr, hnil, hcases⟩ := h.of_offer htaken
  rw [hnil] at hsent
  rcases hcases with ⟨hin, hrest⟩ | ⟨hout, hrest⟩
  · exact .left r hfits (mt hpresent.1 hr) (hshift.present_rev.2 hin) hrest hsent
  · refine .past ((forall_fin_two_iff r).2 ⟨mt hpresent.1 hr, mt hshift.present_rev.1 hout⟩)
      ((forall_fin_two_iff r).2 ⟨?_, ?_⟩)
    · simp [hrest]
    · simp [hsent]

/-- A party that is not in the session any more passes over a stop. -/
theorem passes (h : Fate fits s present letters)
    (hshift : Shift r present letters present' letters' [.farewell] []) (hr : ¬ present r)
    (hr' : ¬ present' r) : Fate fits s present' letters' := by
  have hsent := hshift.sent
  have htaken := hshift.taken
  rw [List.append_nil] at hsent
  cases h with
  | past hout hfarewell =>
      refine .past ((forall_fin_two_iff r).2 ⟨hr', mt hshift.present_rev.1 (hout _)⟩)
        ((forall_fin_two_iff r).2 ⟨?_, ?_⟩)
      · exact fun x hx => hfarewell r x (htaken ▸ List.mem_cons_of_mem _ hx)
      · rw [hsent]
        exact hfarewell r.rev
  | offering _ hin _ _ hletters =>
      obtain rfl : r = s.initiator.rev :=
        (eq_or_eq_rev _ _).resolve_left fun hself => hr (hself ▸ hin)
      rw [hletters] at htaken
      cases (List.cons.inj htaken).1
  | withdrawn _ _ hnil hletters =>
      rcases eq_or_eq_rev s.initiator r with rfl | rfl
      · rw [hnil] at htaken
        cases htaken
      · rw [hletters] at htaken
        cases (List.cons.inj htaken).1
  | shared _ hin => exact absurd (hin r) hr
  | left x _ _ hin hnil _ =>
      obtain rfl : r = x := (eq_or_eq_rev _ _).resolve_right fun hrev => hr (hrev ▸ hin)
      rw [hnil] at htaken
      cases htaken

/-- When nothing is on the way, both parties are in the session or neither is. -/
theorem present_iff (h : Fate fits s present letters) (hnil : ∀ r, letters r = []) :
    present r ↔ present r.rev := by
  cases h with
  | past hout => exact iff_of_false (hout r) (hout r.rev)
  | offering _ _ _ _ hletters | withdrawn _ _ _ hletters =>
      rw [hnil] at hletters
      cases hletters
  | shared _ hin => exact iff_of_true (hin r) (hin r.rev)
  | left x _ _ _ _ hletters =>
      rw [hnil] at hletters
      cases hletters

end Fate

/-! ## Notices in the mail -/

section Notices

variable {fits : Fin 2 → Prop} {s s' : SessionId} {l : Letter} {letters rest posted : List Letter}
variable {p : Fin 2}

theorem notices_append (s : SessionId) (letters posted : List Letter) :
    notices s (letters ++ posted) = notices s letters ++ notices s posted :=
  List.filterMap_append

theorem notices_cons (s : SessionId) (l : Letter) (rest : List Letter) :
    notices s (l :: rest) = (l.notice? s).toList ++ notices s rest := by
  rw [notices, List.filterMap_cons]
  cases l.notice? s <;> rfl

theorem notice?_of_ne (h : s ≠ l.mark.session) : l.notice? s = none := if_neg h.symm

theorem notice?_of_isUpdate (h : l.IsUpdate) : l.notice? s = none := by
  obtain ⟨u, hu⟩ := h
  rw [Letter.notice?, hu]
  exact ite_self _

theorem notice?_of_isStart (h : l.IsStart) : l.notice? l.mark.session = some .offer := by
  obtain ⟨offer, hoffer⟩ := h
  rw [Letter.notice?, hoffer]
  exact if_pos rfl

theorem notice?_of_isStop (h : l.IsStop) : l.notice? l.mark.session = some .farewell := by
  rw [Letter.notice?, show l.message = .stop from h]
  exact if_pos rfl

theorem notices_of_updates (h : Updates s' posted) : notices s posted = [] :=
  List.filterMap_eq_nil_iff.2 fun l hl => notice?_of_isUpdate (h l hl).1

theorem notices_of_stopped (h : Stopped fits p s posted) (hfits : fits p) :
    notices s posted = [.farewell] := by
  rcases h with ⟨-, l, hstop, rfl, rfl⟩ | ⟨hnot, -⟩
  · rw [notices_cons, notice?_of_isStop hstop]
    rfl
  · exact absurd hfits hnot

theorem notices_of_stopped_of_ne (h : Stopped fits p s' posted) (hs : s ≠ s') :
    notices s posted = [] := by
  rcases h with ⟨-, l, hstop, rfl, rfl⟩ | ⟨-, rfl⟩
  · rw [notices_cons, notice?_of_ne hs]
    rfl
  · rfl

end Notices

/-! ## All sessions -/

variable {fits : Fin 2 → Prop} {b b' : Ledger} {r : Fin 2} {s s' : SessionId} {l : Letter}
variable {session : Option SessionId} {kept posted rest : List Letter} {epochs : Nat}

/-- What has become of a session. -/
def FateOf (fits : Fin 2 → Prop) (b : Ledger) (s : SessionId) : Prop :=
  Fate fits s (fun r => b.session r = some s) fun r => notices s (b.mail r)

theorem shift_turn {taken sent : List Notice}
    (htaken : notices s (b.mail r) = taken ++ notices s kept) (hsent : notices s posted = sent) :
    Shift r (fun r => b.session r = some s) (fun r => notices s (b.mail r))
      (fun x => (b.turn r session kept posted epochs).session x = some s)
      (fun x => notices s ((b.turn r session kept posted epochs).mail x)) taken sent := by
  refine ⟨?_, ?_, ?_⟩
  · rw [session_turn_rev]
  · rw [mail_turn_self, htaken]
  · rw [mail_turn_rev, notices_append, hsent]

namespace FateOf

/-- A turn that has nothing to do with the session. -/
theorem same (h : FateOf fits b s) (hsession : session = some s ↔ b.session r = some s)
    (hkept : notices s kept = notices s (b.mail r)) (hposted : notices s posted = []) :
    FateOf fits (b.turn r session kept posted epochs) s := by
  have hshift : Shift r _ _ (fun x => (b.turn r session kept posted epochs).session x = some s)
      _ [] [] := shift_turn hkept.symm hposted
  refine Fate.same h ((forall_fin_two_iff r).2 ⟨?_, hshift.present_rev⟩)
    ((forall_fin_two_iff r).2 ⟨hshift.taken.symm, ?_⟩)
  · rwa [session_turn_self]
  · rw [hshift.sent, List.append_nil]

/-- A party that ends its session says so to the peer. -/
theorem quits (h : FateOf fits b s) (hsession : b.session r = some s')
    (hkept : notices s kept = notices s (b.mail r)) (hposted : Stopped fits r.rev s' posted) :
    FateOf fits (b.turn r none kept posted epochs) s := by
  by_cases hs : s = s'
  · subst hs
    have hfits := Fate.fits_of_present h hsession
    refine Fate.quits h (shift_turn hkept.symm (notices_of_stopped hposted (hfits _))) hsession ?_
    rw [session_turn_self]
    exact nofun
  · refine h.same ?_ hkept (notices_of_stopped_of_ne hposted hs)
    rw [hsession]
    exact iff_of_false nofun fun heq => hs (Option.some.inj heq).symm

theorem act (h : FateOf fits b s) (hact : Act fits r b session kept posted) :
    FateOf fits (b.turn r session kept posted epochs) s := by
  cases hact with
  | rests => exact h.same Iff.rfl rfl rfl
  | speaks hsession hupdates =>
      exact h.same (by rw [hsession]) rfl (notices_of_updates hupdates)
  | quits hsession hstopped => exact h.quits hsession rfl hstopped
  | @ignores l rest hsession hmail hl =>
      have hcons := congrArg (notices s) hmail
      rw [notices_cons] at hcons
      by_cases hnotice : l.notice? s = none
      · rw [hnotice] at hcons
        exact h.same (by rw [hsession]) hcons.symm rfl
      · -- What is passed over is the stop of a session that the party has left.
        have hs : s = l.mark.session := by_contra fun hne => hnotice (notice?_of_ne hne)
        subst hs
        have hstop : l.IsStop := l.isStop_of hl fun hupdate =>
          hnotice (notice?_of_isUpdate hupdate)
        rw [notice?_of_isStop hstop] at hcons
        refine Fate.passes h (shift_turn hcons rfl) ?_ ?_
        · rw [hsession]
          exact nofun
        · rw [session_turn_self]
          exact nofun
  | @isOffered l rest hsession hmail hl =>
      have hcons := congrArg (notices s) hmail
      rw [notices_cons] at hcons
      by_cases hs : s = l.mark.session
      · subst hs
        rw [notice?_of_isStart hl] at hcons
        exact Fate.isOffered h (shift_turn hcons rfl) session_turn_self
      · rw [notice?_of_ne hs] at hcons
        refine h.same ?_ hcons.symm rfl
        rw [hsession]
        exact iff_of_false (fun heq => hs (Option.some.inj heq).symm) nofun
  | @refuses s₀ l rest posted hsession hmail hl hstopped =>
      have hcons := congrArg (notices s) hmail
      rw [notices_cons] at hcons
      by_cases hs : s = l.mark.session
      · subst hs
        rw [notice?_of_isStart hl] at hcons
        have hfits := Fate.fits_of_offer h (r := r) (hcons ▸ List.mem_cons_self)
        refine Fate.refuses h (shift_turn hcons (notices_of_stopped hstopped (hfits _))) ?_
        rw [session_turn_self, hsession]
      · rw [notice?_of_ne hs] at hcons
        exact h.same (by rw [hsession]) hcons.symm (notices_of_stopped_of_ne hstopped hs)
  | @applies s₀ l rest posted hsession hmail hl hupdates =>
      have hcons := congrArg (notices s) hmail
      rw [notices_cons, notice?_of_isUpdate hl] at hcons
      exact h.same (by rw [hsession]) hcons.symm (notices_of_updates hupdates)
  | @breaks s₀ l rest posted hsession hmail hl hstopped =>
      have hcons := congrArg (notices s) hmail
      rw [notices_cons, notice?_of_isUpdate hl] at hcons
      exact h.quits hsession hcons.symm hstopped

/-- A party leaves its session because of a stop that was meant for it. -/
theorem leaves (h : FateOf fits b s) (hleaves : Leaves r b s' l rest)
    (hmeant : l.mark.session = s') :
    FateOf fits (b.turn r none rest [] epochs) s := by
  subst hmeant
  have hcons := congrArg (notices s) hleaves.mail_eq
  rw [notices_cons] at hcons
  by_cases hs : s = l.mark.session
  · subst hs
    rw [notice?_of_isStop hleaves.stop] at hcons
    refine Fate.leaves h (shift_turn hcons rfl) hleaves.session_eq ?_
    rw [session_turn_self]
    exact nofun
  · rw [notice?_of_ne hs] at hcons
    refine h.same ?_ hcons.symm rfl
    rw [hleaves.session_eq]
    exact iff_of_false nofun fun heq => hs (Option.some.inj heq).symm

end FateOf

/-- Someone is in the session, or a letter is about it. -/
def Mentions (b : Ledger) (s : SessionId) : Prop :=
  ∃ p, b.session p = some s ∨ ∃ l ∈ b.mail p, l.mark.session = s

/-- What becomes of every session is in order, and only sessions that were begun are about. -/
structure Orderly (fits : Fin 2 → Prop) (b : Ledger) : Prop where
  fate : ∀ s, FateOf fits b s
  begun : ∀ s, b.Mentions s → s.epoch ≤ b.epochs s.initiator

theorem not_present_of_not_mentions (h : ¬ b.Mentions s) :
    (∀ r, ¬ b.session r = some s) ∧ ∀ r, notices s (b.mail r) = [] := by
  refine ⟨fun r hr => h ⟨r, .inl hr⟩, fun r => List.filterMap_eq_nil_iff.2 fun l hl => ?_⟩
  exact notice?_of_ne fun heq => h ⟨r, .inr ⟨l, hl, heq.symm⟩⟩

/-- A turn mentions the session that the party comes to, and those of what it posts. -/
theorem mentions_of_turn (h : (b.turn r session kept posted epochs).Mentions s)
    (hkept : ∀ l ∈ kept, l ∈ b.mail r) :
    b.Mentions s ∨ session = some s ∨ ∃ l ∈ posted, l.mark.session = s := by
  obtain ⟨x, hx⟩ := h
  rcases eq_or_eq_rev r x with rfl | rfl
  · rw [session_turn_self, mail_turn_self] at hx
    rcases hx with hsession | ⟨l, hl, hs⟩
    · exact .inr (.inl hsession)
    · exact .inl ⟨x, .inr ⟨l, hkept l hl, hs⟩⟩
  · rw [session_turn_rev, mail_turn_rev] at hx
    rcases hx with hsession | ⟨l, hl, hs⟩
    · exact .inl ⟨_, .inl hsession⟩
    · rcases List.mem_append.1 hl with hl | hl
      · exact .inl ⟨_, .inr ⟨l, hl, hs⟩⟩
      · exact .inr (.inr ⟨l, hl, hs⟩)

theorem Stopped.mentions (h : Stopped fits r s posted) (hs : b.Mentions s) :
    ∀ l ∈ posted, b.Mentions l.mark.session := by
  rcases h with ⟨-, x, -, rfl, rfl⟩ | ⟨-, rfl⟩
  · intro l hl
    rwa [List.mem_singleton.1 hl]
  · exact fun _ hl => nomatch hl

theorem Updates.mentions (h : Updates s posted) (hs : b.Mentions s) :
    ∀ l ∈ posted, b.Mentions l.mark.session := fun l hl => (h l hl).2 ▸ hs

/-- A party that mixes up no sessions comes to a session, and posts letters about sessions,
that were about before. -/
theorem Act.mentions (hact : Act fits r b session kept posted) :
    (∀ l ∈ kept, l ∈ b.mail r) ∧ (∀ s ∈ session, b.Mentions s) ∧
      ∀ l ∈ posted, b.Mentions l.mark.session := by
  have hown : ∀ s ∈ b.session r, b.Mentions s := fun s hs => ⟨r, .inl hs⟩
  have hhead : ∀ {l : Letter} {rest : List Letter}, b.mail r = l :: rest →
      (∀ x ∈ rest, x ∈ b.mail r) ∧ b.Mentions l.mark.session := fun hmail =>
    ⟨fun x hx => hmail ▸ List.mem_cons_of_mem _ hx,
      ⟨r, .inr ⟨_, hmail ▸ List.mem_cons_self, rfl⟩⟩⟩
  have hnone : ∀ s ∈ (none : Option SessionId), b.Mentions s := by simp
  have hnil : ∀ l ∈ ([] : List Letter), b.Mentions l.mark.session := by simp
  cases hact with
  | rests => exact ⟨fun _ hl => hl, hown, hnil⟩
  | speaks hsession hupdates =>
      exact ⟨fun _ hl => hl, hsession ▸ hown, hupdates.mentions (hown _ hsession)⟩
  | quits hsession hstopped =>
      exact ⟨fun _ hl => hl, hnone, hstopped.mentions (hown _ hsession)⟩
  | ignores _ hmail _ =>
      exact ⟨(hhead hmail).1, hnone, hnil⟩
  | isOffered _ hmail _ =>
      refine ⟨(hhead hmail).1, ?_, hnil⟩
      rintro _ ⟨⟩
      exact (hhead hmail).2
  | refuses hsession hmail _ hstopped =>
      exact ⟨(hhead hmail).1, hsession ▸ hown, hstopped.mentions (hhead hmail).2⟩
  | applies hsession hmail _ hupdates =>
      exact ⟨(hhead hmail).1, hsession ▸ hown, hupdates.mentions (hown _ hsession)⟩
  | breaks hsession hmail _ hstopped =>
      exact ⟨(hhead hmail).1, hnone, hstopped.mentions (hown _ hsession)⟩

theorem mentions_of_act (hact : Act fits r b session kept posted)
    (h : (b.turn r session kept posted epochs).Mentions s) : b.Mentions s := by
  obtain ⟨hkept, hsession, hposted⟩ := hact.mentions
  rcases mentions_of_turn h hkept with hold | hnew | ⟨l, hl, rfl⟩
  · exact hold
  · exact hsession s hnew
  · exact hposted l hl

/-- Sessions that were begun before a turn were begun after it. -/
theorem epochs_le_turn (hepochs : b.epochs r ≤ epochs) (x : Fin 2) :
    b.epochs x ≤ (b.turn r session kept posted epochs).epochs x := by
  rcases eq_or_eq_rev r x with rfl | rfl
  · rwa [epochs_turn_self]
  · rw [epochs_turn_rev]

namespace Orderly

theorem act (h : Orderly fits b) (hact : Act fits r b session kept posted)
    (hepochs : b.epochs r ≤ epochs) : Orderly fits (b.turn r session kept posted epochs) := by
  refine ⟨fun s => (h.fate s).act hact, fun s hs => ?_⟩
  exact Nat.le_trans (h.begun s (mentions_of_act hact hs)) (epochs_le_turn hepochs _)

/-- A new session is begun with an offer that the peer can read. -/
theorem begins (h : Orderly fits b) (hbegins : Begins fits r b s posted epochs)
    (hlegible : posted ≠ []) : Orderly fits (b.turn r (some s) (b.mail r) posted epochs) := by
  obtain ⟨hpeer, l, hstart, hl, rfl⟩ := hbegins.posted.resolve_left hlegible
  have hfresh : ¬ b.Mentions s := fun hs => by
    have hle := h.begun s hs
    rw [hbegins.initiator_eq] at hle
    exact absurd hbegins.epoch_lt (Nat.not_lt_of_le hle)
  refine ⟨fun s' => ?_, fun s' hs' => ?_⟩
  · by_cases heq : s' = s
    · subst heq
      obtain ⟨hout, hnil⟩ := not_present_of_not_mentions hfresh
      refine Fate.begins ((forall_fin_two_iff r).2 ⟨hbegins.fits_self, hpeer⟩)
        hbegins.initiator_eq (shift_turn rfl ?_) session_turn_self hout hnil
      subst hl
      rw [notices_cons, notice?_of_isStart hstart]
      rfl
    · refine (h.fate s').same ?_ rfl ?_
      · rw [hbegins.session_eq]
        exact iff_of_false (fun hs => heq (Option.some.inj hs).symm) nofun
      · rw [notices_cons, notice?_of_ne (hl ▸ heq)]
        rfl
  · have hcases : b.Mentions s' ∨ s' = s := by
      rcases mentions_of_turn hs' (fun _ hl => hl) with hold | hnew | ⟨x, hx, rfl⟩
      · exact .inl hold
      · exact .inr (Option.some.inj hnew).symm
      · rw [List.mem_singleton.1 hx]
        exact .inr hl
    rcases hcases with hold | rfl
    · have hle := Nat.le_of_lt (Nat.lt_of_lt_of_le hbegins.epoch_lt hbegins.epoch_le)
      exact Nat.le_trans (h.begun s' hold) (epochs_le_turn hle _)
    · rw [hbegins.initiator_eq, epochs_turn_self]
      exact hbegins.epoch_le

theorem leaves (h : Orderly fits b) (hleaves : Leaves r b s l rest) (hmeant : l.mark.session = s) :
    Orderly fits (b.turn r none rest [] (b.epochs r)) := by
  refine ⟨fun s' => (h.fate s').leaves hleaves hmeant, fun s' hs' => ?_⟩
  have hold : b.Mentions s' := by
    rcases mentions_of_turn hs' (fun x hx => hleaves.mail_eq ▸ List.mem_cons_of_mem _ hx) with
      hold | hnone | ⟨x, hx, -⟩
    · exact hold
    · cases hnone
    · cases hx
  exact Nat.le_trans (h.begun s' hold) (epochs_le_turn (Nat.le_refl _) _)

/-- Every call keeps the sessions in order, if offers can be read and stops are taken for
what they are meant. -/
theorem step {new : Prop} {handled : Option Letter} (h : Orderly fits b)
    (hstep : Step fits r new handled b b')
    (hlegible : new → b'.mail r.rev ≠ b.mail r.rev)
    (hmeant : ∀ l s, handled = some l → l.IsStop → b.session r = some s → l.mark.session = s) :
    Orderly fits b' := by
  cases hstep with
  | intro heffect hact =>
      refine act ?_ hact (Nat.le_of_eq epochs_turn_rev)
      cases heffect with
      | act hown hepochs => exact h.act hown hepochs
      | begins hnew hbegins =>
          refine h.begins hbegins fun hnil => hlegible hnew ?_
          rw [hnil, mail_turn_self, List.append_nil]
      | leaves hhandled hleaves =>
          exact h.leaves hleaves (hmeant _ _ hhandled hleaves.stop hleaves.session_eq)

/-- When nothing is on the way, both parties have the same session or none. -/
theorem session_eq (h : Orderly fits b) (hnil : ∀ r, b.mail r = []) :
    b.session 0 = b.session 1 := by
  refine Option.ext fun s => ?_
  refine Fate.present_iff (r := 0) (h.fate s) fun r => ?_
  rw [hnil]
  rfl

end Orderly

end Ledger

open Ledger

variable {ids : Fin 2 → PeerId} {configs : Fin 2 → Config} {texts : List Text}
variable {posts posts' : Fin 2 → Post} {n : Chronicle} {w' : World} {p : Fin 2} {c : Call}
variable {phase phase' : Phase} {taken : Option Message} {handled : Option Letter}
variable {had : Option SessionId} {s : SessionId}

/-! ## Whose session it is -/

/-- The parties of a session, as one of them has them. -/
def SessionId.participants (ids : Fin 2 → PeerId) (p : Fin 2) (s : SessionId) : Participants :=
  ⟨ids p, ids s.initiator, ids s.initiator.rev⟩

theorem Speaks.participants_eq {limits : Limits} {out : List Message}
    (h : Speaks limits phase out phase') : phase'.participants = phase.participants := by
  cases phase with
  | idle | offered => rw [(h.eq_of_not_live (by simp)).1]
  | live l =>
      obtain ⟨strategy, rfl⟩ := h.of_live
      rfl

/-- A party that stays in a session has it with the same parties. -/
theorem Turn.participants_eq {config : Config} {epochs epochs' : Nat} {out : List Message}
    (h : Turn ids config p taken phase epochs out phase' epochs') (hphase : phase ≠ .idle)
    (hphase' : phase' ≠ .idle) : phase'.participants = phase.participants := by
  cases h with
  | speaks hspeaks => exact hspeaks.participants_eq
  | fails | starts | ignores | isOffered => exact absurd rfl hphase
  | quits | breaks | leaves => exact absurd rfl hphase'
  | misses | refuses => rfl
  | enters _ hspeaks | applies _ _ hspeaks => exact hspeaks.participants_eq
  | absorbs _ habsorb => exact congrArg some (Offered.participants_of_absorb? habsorb)

/-- A party has the session that it began or was offered with the parties of that session. -/
theorem Turn.participants_of_idle {config : Config} {epochs epochs' : Nat} {out : List Message}
    (h : Turn ids config p taken .idle epochs out phase' epochs')
    (hread : Reads config.limits taken handled)
    (hoffer : ∀ l, handled = some l → l.IsStart → l.mark.session.initiator = p.rev)
    (hs : follow p had .idle phase' handled = some s) :
    phase'.participants = some (s.participants ids p) := by
  cases h with
  | speaks hspeaks =>
      rw [(hspeaks.eq_of_not_live (by simp)).1] at hs
      cases hs
  | fails | quits | misses | ignores | breaks | leaves => cases hs
  | starts =>
      cases hs
      rfl
  | isOffered hdecode =>
      obtain ⟨mark, rfl⟩ := hread.exists_eq hdecode
      cases hs
      rw [SessionId.participants, hoffer _ rfl ⟨_, rfl⟩, Fin.rev_rev]
      rfl
  | refuses hphase => exact absurd rfl hphase

/-- Every party has its session with the parties of that session. -/
def Named (ids : Fin 2 → PeerId) (posts : Fin 2 → Post) (n : Chronicle) : Prop :=
  ∀ p s, (n.notes p).session = some s → (posts p).phase.participants = some (s.participants ids p)

theorem Turn.named {config : Config} {epochs epochs' : Nat} {out : List Message}
    (h : Turn ids config p taken phase epochs out phase' epochs')
    (hread : Reads config.limits taken handled)
    (hoffer : ∀ l, handled = some l → l.IsStart → l.mark.session.initiator = p.rev)
    (hhad : ∀ s, had = some s → phase.participants = some (s.participants ids p))
    (hs : follow p had phase phase' handled = some s) :
    phase'.participants = some (s.participants ids p) := by
  by_cases hphase : phase = .idle
  · subst hphase
    exact h.participants_of_idle hread hoffer hs
  · have hphase' : phase' ≠ .idle := by
      rintro rfl
      cases hs
    rw [follow_of_ne_idle hphase hphase'] at hs
    rw [h.participants_eq hphase hphase', hhad s hs]

theorem Episode.named {out : Fin 2 → List Message}
    (h : Episode ids configs n c w' p taken posts out posts') (hnamed : Named ids posts n)
    (horderly : Orderly (fitting configs) n.ledger) : Named ids posts' (n.next c w') := by
  intro q s hs
  have hfollow := (h.session_next q).symm.trans hs
  rcases eq_or_eq_rev p q with rfl | rfl
  · refine h.moves.turn.named h.reads ?_ (hnamed q) hfollow
    intro l hl hstart
    have hmem : l ∈ n.mail q := by
      rw [h.told.mail_eq_handled_append c, hl]
      exact List.mem_cons_self
    exact Fate.initiator_eq_of_offer (horderly.fate l.mark.session)
      (List.mem_filterMap.2 ⟨l, hmem, notice?_of_isStart hstart⟩)
  · rw [h.handled?_rev] at hfollow
    have hturn : Turn ids (configs p.rev) p.rev none _ (posts p.rev).epochs _ _ _ :=
      .speaks h.moves.speaks
    exact hturn.named .nothing (fun _ hl => nomatch hl) (hnamed p.rev) hfollow

namespace Chronicle

/-- No party takes the stop of one session for that of another. -/
def Meant (n : Chronicle) (c : Call) (_ : World) : Prop :=
  ∀ p, ∀ l ∈ n.handled? c p, l.IsStop → ∀ s ∈ (n.notes p).session, l.mark.session = s

/-- The peer can read every offer. -/
def Legible (n : Chronicle) (c : Call) (w' : World) : Prop :=
  ∀ p, n.Starts w' p → (n.next c w').mail p.rev ≠ n.mail p.rev

instance (n : Chronicle) (c : Call) (w' : World) : Decidable (n.Meant c w') :=
  inferInstanceAs (Decidable (∀ p, ∀ l ∈ n.handled? c p, l.IsStop →
    ∀ s ∈ (n.notes p).session, l.mark.session = s))

instance (n : Chronicle) (c : Call) (w' : World) : Decidable (n.Legible c w') :=
  inferInstanceAs (Decidable (∀ p, n.Starts w' p → (n.next c w').mail p.rev ≠ n.mail p.rev))

/-- Nothing is on the way to either party. -/
def Quiet (n : Chronicle) : Prop := ∀ p : Fin 2, (n.world.network.endpoint p).queue = []

/-- A party has a session with its peer, or an offer of it. -/
def Engaged (ids : Fin 2 → PeerId) (n : Chronicle) (p : Fin 2) : Prop :=
  (n.world.phase p).other = some (ids p.rev)

instance (n : Chronicle) : Decidable n.Quiet :=
  inferInstanceAs (Decidable (∀ p : Fin 2, (n.world.network.endpoint p).queue = []))

instance (ids : Fin 2 → PeerId) (n : Chronicle) (p : Fin 2) : Decidable (n.Engaged ids p) :=
  inferInstanceAs (Decidable (_ = _))

end Chronicle

theorem orderly_opening (fits : Fin 2 → Prop) :
    Orderly fits (Chronicle.opening ids configs texts).ledger := by
  have hmail : ∀ r, (Chronicle.opening ids configs texts).ledger.mail r = [] :=
    Chronicle.mail_opening ids configs texts
  refine ⟨fun s => .past (fun _ => nofun) fun r x hx => ?_, ?_⟩
  · rw [hmail] at hx
    cases hx
  · rintro s ⟨r, hsession | ⟨l, hl, -⟩⟩
    · cases hsession
    · rw [hmail] at hl
      cases hl

theorem Told.engaged_iff (h : Told ids configs posts n) (hdistinct : Distinct ids configs) :
    n.Engaged ids p ↔ (n.notes p).session ≠ none := by
  have hproper := (h.proper p).phase
  rw [Chronicle.Engaged, h.wired.phase_eq, ne_eq, h.idle]
  cases hphase : (posts p).phase with
  | idle => simp [Phase.other]
  | offered o =>
      rw [hphase] at hproper
      have hparticipants : o.participants = ⟨ids p, ids p.rev, ids p⟩ := hproper
      simp [Phase.other, hparticipants]
  | live l =>
      rw [hphase] at hproper
      simp [Phase.other, other_eq_of_proper hdistinct.ids_ne hproper]

namespace Chronicle

/-- In runs in which every offer can be read, and no stop is taken for that of another
session, the parties agree whenever nothing is on the way: the one has a session with the
other exactly if the other has one with it, and they name the same initiator and receiver. -/
theorem parties_agree_at_rest (hdistinct : Distinct ids configs)
    (h : Reachable ids configs texts (fun n c w' => n.Meant c w' ∧ n.Legible c w') n)
    (hquiet : n.Quiet) :
    (n.Engaged ids 0 ↔ n.Engaged ids 1) ∧
      ∀ x y, (n.world.phase 0).participants = some x → (n.world.phase 1).participants = some y →
        x.initiator = y.initiator ∧ x.receiver = y.receiver := by
  obtain ⟨posts, htold, horderly, hnamed⟩ := h.invariant
    (P := fun posts n => Orderly (fitting configs) n.ledger ∧ Named ids posts n) hdistinct
    ⟨orderly_opening _, fun _ _ hs => nomatch hs⟩ <| by
      rintro n c w' p taken posts out posts' ⟨horderly, hnamed⟩ ⟨hmeant, hlegible⟩ hepisode
      exact ⟨horderly.step (hepisode.step hdistinct) (hlegible p) (fun l s hl hstop hs =>
        hmeant p l hl hstop s hs), hepisode.named hnamed horderly⟩
  have hmail : ∀ r, n.ledger.mail r = [] := fun r => by
    show n.mail r = []
    rw [mail, World.inbox, hquiet]
    rfl
  have hsession : (n.notes 0).session = (n.notes 1).session := horderly.session_eq hmail
  refine ⟨?_, ?_⟩
  · rw [htold.engaged_iff hdistinct, htold.engaged_iff hdistinct, hsession]
  · intro x y hx hy
    rw [show n.world.phase 0 = _ from htold.wired.phase_eq 0] at hx
    rw [show n.world.phase 1 = _ from htold.wired.phase_eq 1] at hy
    have hphase : (posts 0).phase ≠ .idle := fun hidle => by
      rw [hidle] at hx
      cases hx
    obtain ⟨s, hs⟩ := exists_session (b := n.ledger) (p := 0) (htold.idle 0) hphase
    rw [hnamed 0 s hs, Option.some.injEq] at hx
    rw [hnamed 1 s (hsession ▸ hs), Option.some.injEq] at hy
    subst hx hy
    exact ⟨rfl, rfl⟩

/-- An offer is declined, the peer makes one of its own, and that is accepted and edited. -/
theorem parties_agree_at_rest_again :
    let ids : Fin 2 → PeerId := fun p => .ofByte (if p = 0 then 0xA1 else 0xB0)
    let texts : List Text := ["hello".toList, "stale".toList]
    ∃ n, Reachable ids (fun _ => .usual) texts (fun n c w' => n.Meant c w' ∧ n.Legible c w') n ∧
      n.Quiet ∧ n.Engaged ids 0 ∧ n.Engaged ids 1 ∧
      ∀ x y, (n.world.phase 0).participants = some x → (n.world.phase 1).participants = some y →
        x.initiator = y.initiator ∧ x.receiver = y.receiver := by
  intro ids texts
  have hrun : ∃ n ∈ (opening ids (fun _ => .usual) texts).run?
      (fun n c w' => n.Meant c w' ∧ n.Legible c w')
      [.start 0 (ids 0) none (ids 1) [] 0, .handleNext 1, .decline 1, .handleNext 0,
        .start 1 (ids 1) none (ids 0) [] 1, .handleNext 0, .accept 0 0, .edit 0 ⟨0, 0, ['X']⟩,
        .handleNext 1],
      n.Quiet ∧ n.Engaged ids 0 := by
    decide +kernel
  obtain ⟨n, hn, hquiet, hengaged⟩ := hrun
  have hreachable := Reachable.init.run? (by decide) hn
  obtain ⟨hiff, hnames⟩ :=
    parties_agree_at_rest ⟨by decide, fun _ => by decide⟩ hreachable hquiet
  exact ⟨n, hreachable, hquiet, hengaged, hiff.1 hengaged, hnames⟩

/-- A stop that is taken for that of another session, or an offer that the peer cannot read,
leaves a party alone in a session. -/
theorem parties_disagree :
    let ids : Fin 2 → PeerId := fun p => .ofByte (if p = 0 then 0xA1 else 0xB0)
    let narrow : Fin 2 → Config := fun p =>
      if p = 0 then .usual else ⟨{ Limits.usual with documentChars := 2 }, .backlog, 64⟩
    let texts : List Text := ["hello".toList, "stale".toList]
    (∃ n, Reachable ids (fun _ => .usual) texts Legible n ∧ n.Quiet ∧
      ¬ n.Engaged ids 0 ∧ n.Engaged ids 1) ∧
    ∃ n, Reachable ids narrow texts Meant n ∧ n.Quiet ∧ n.Engaged ids 0 ∧ ¬ n.Engaged ids 1 := by
  intro ids narrow texts
  have hstale : ∃ n ∈ (opening ids (fun _ => .usual) texts).run? Legible
      [.start 0 (ids 0) none (ids 1) [] 0, .handleNext 1, .decline 1, .stop 0,
        .start 0 (ids 0) none (ids 1) [] 0, .handleNext 0, .handleNext 1, .handleNext 1],
      n.Quiet ∧ ¬ n.Engaged ids 0 ∧ n.Engaged ids 1 := by
    decide +kernel
  have hnarrow : ∃ n ∈ (opening ids narrow texts).run? Meant
      [.start 0 (ids 0) none (ids 1) [] 0, .handleNext 1],
      n.Quiet ∧ n.Engaged ids 0 ∧ ¬ n.Engaged ids 1 := by
    decide +kernel
  obtain ⟨n, hn, hstale⟩ := hstale
  obtain ⟨n', hn', hnarrow⟩ := hnarrow
  exact ⟨⟨n, Reachable.init.run? (by decide) hn, hstale⟩,
    ⟨n', Reachable.init.run? (by decide) hn', hnarrow⟩⟩

end Chronicle

end PairEdit.Session
