import Mathlib.Data.Fin.Rev
import Mathlib.Logic.Function.Basic
import PairEdit.Proofs.Codec

/-!
# Which session a message is about

Messages do not say which session they belong to, and two parties may have many sessions
one after another.  So the sessions are named here, and every message carries a postmark
that its receiver does not see.  A `Ledger` keeps what matters then: the session each party
is in, and the letters on the way to it that it can read.  A party adds to the ledger in one
of three ways, which are kept apart because sessions get mixed up in the last two only:
whatever it does within a session, it begins one, and it leaves one that the peer has
stopped.
-/

namespace PairEdit.Session

open Function

theorem rev_ne (p : Fin 2) : p.rev ≠ p := by
  revert p
  decide

theorem ne_rev (p : Fin 2) : p ≠ p.rev := (rev_ne p).symm

theorem eq_or_eq_rev (p q : Fin 2) : q = p ∨ q = p.rev := by
  revert p q
  decide

/-- Names a session for good: by the party that offered it, and how many sessions that party
had begun then. -/
structure SessionId where
  initiator : Fin 2
  epoch : Nat
deriving DecidableEq, Repr

/-- What is noted down about a message when it is sent. -/
structure Postmark where
  /-- The session of the sender, or the one whose offer is refused. -/
  session : SessionId
  /-- The document that the sender shares. -/
  shared : Option Nat
  /-- The document that the call under way writes to. -/
  written : Option Nat
  /-- The edits of the receiver that the sender has applied in the session, by the numbers
  they were sent with. -/
  applied : List Nat
deriving DecidableEq, Repr

/-- A message that can be read, and its postmark. -/
structure Letter where
  message : Message
  mark : Postmark
deriving DecidableEq, Repr

namespace Letter

/-- A letter that offers a document. -/
def IsStart (l : Letter) : Prop := ∃ offer, l.message = .start offer

/-- A letter with an edit. -/
def IsUpdate (l : Letter) : Prop := ∃ u, l.message = .update u

/-- A letter that says that its sender stops, or refuses. -/
def IsStop (l : Letter) : Prop := l.message = .stop

instance (l : Letter) : Decidable l.IsStart :=
  match h : l.message with
  | .start offer => isTrue ⟨offer, h⟩
  | .update _ => isFalse fun ⟨_, hstart⟩ => by cases h.symm.trans hstart
  | .stop => isFalse fun ⟨_, hstart⟩ => by cases h.symm.trans hstart

instance (l : Letter) : Decidable l.IsUpdate :=
  match h : l.message with
  | .update u => isTrue ⟨u, h⟩
  | .start _ => isFalse fun ⟨_, hupdate⟩ => by cases h.symm.trans hupdate
  | .stop => isFalse fun ⟨_, hupdate⟩ => by cases h.symm.trans hupdate

instance (l : Letter) : Decidable l.IsStop := inferInstanceAs (Decidable (_ = _))

variable {l : Letter}

theorem IsUpdate.not_isStart (h : l.IsUpdate) : ¬ l.IsStart := by
  rintro ⟨offer, hoffer⟩
  obtain ⟨u, hu⟩ := h
  rw [hoffer] at hu
  cases hu

theorem IsStop.not_isStart (h : l.IsStop) : ¬ l.IsStart := by
  rintro ⟨offer, hoffer⟩
  rw [IsStop, hoffer] at h
  cases h

theorem IsStop.not_isUpdate (h : l.IsStop) : ¬ l.IsUpdate := by
  rintro ⟨u, hu⟩
  rw [IsStop, hu] at h
  cases h

theorem isStop_of (l : Letter) (hstart : ¬ l.IsStart) (hupdate : ¬ l.IsUpdate) : l.IsStop := by
  rcases h : l.message with offer | u | _
  · exact absurd ⟨offer, h⟩ hstart
  · exact absurd ⟨u, h⟩ hupdate
  · exact h

end Letter

/-- The session each party is in, what it can read of what is on the way to it, and how many
sessions it has begun. -/
@[ext]
structure Ledger where
  session : Fin 2 → Option SessionId
  mail : Fin 2 → List Letter
  epochs : Fin 2 → Nat

namespace Ledger

/-- What a party has come to: its session, what is left of its mail and what it posted. -/
def turn (b : Ledger) (p : Fin 2) (session : Option SessionId) (kept posted : List Letter)
    (epochs : Nat) : Ledger where
  session := update b.session p session
  mail := update (update b.mail p kept) p.rev (b.mail p.rev ++ posted)
  epochs := update b.epochs p epochs

variable {b : Ledger} {p : Fin 2} {session : Option SessionId} {kept posted : List Letter}
variable {epochs : Nat} {fits : Fin 2 → Prop}

@[simp]
theorem session_turn_self : (b.turn p session kept posted epochs).session p = session :=
  update_self ..

@[simp]
theorem session_turn_rev :
    (b.turn p session kept posted epochs).session p.rev = b.session p.rev :=
  update_of_ne (rev_ne p) ..

@[simp]
theorem mail_turn_self : (b.turn p session kept posted epochs).mail p = kept := by
  simp only [turn, update_of_ne (ne_rev p), update_self]

@[simp]
theorem mail_turn_rev :
    (b.turn p session kept posted epochs).mail p.rev = b.mail p.rev ++ posted :=
  update_self ..

@[simp]
theorem epochs_turn_self : (b.turn p session kept posted epochs).epochs p = epochs :=
  update_self ..

@[simp]
theorem epochs_turn_rev : (b.turn p session kept posted epochs).epochs p.rev = b.epochs p.rev :=
  update_of_ne (rev_ne p) ..

/-- What the turn of one party and then that of the other come to. -/
theorem turn_turn_eq {b' : Ledger} {session' : Option SessionId} {kept' posted' : List Letter}
    {epochs' : Nat} (hself : b'.session p = session) (hrev : b'.session p.rev = session')
    (hmail : b'.mail p = kept ++ posted') (hmail' : b'.mail p.rev = kept')
    (hepochs : b'.epochs p = epochs) (hepochs' : b'.epochs p.rev = epochs') :
    (b.turn p session kept posted epochs).turn p.rev session' kept' posted' epochs' = b' := by
  refine Ledger.ext ?_ ?_ ?_ <;> funext q <;> rcases eq_or_eq_rev p q with rfl | rfl <;>
    simp only [turn, update_self, update_of_ne (ne_rev _), update_of_ne (rev_ne _), Fin.rev_rev, *]

/-- A message about the end of a session reaches a party whose limits it keeps to. -/
def Stopped (fits : Fin 2 → Prop) (p : Fin 2) (s : SessionId) (posted : List Letter) : Prop :=
  (fits p ∧ ∃ l : Letter, l.IsStop ∧ l.mark.session = s ∧ posted = [l]) ∨
    (¬ fits p ∧ posted = [])

/-- Updates of one session. -/
def Updates (s : SessionId) (posted : List Letter) : Prop :=
  ∀ l ∈ posted, l.IsUpdate ∧ l.mark.session = s

/-- What a party may do that mixes up no sessions.  `fits p` says that a message about the
end of a session keeps to the limits of the party. -/
inductive Act (fits : Fin 2 → Prop) (p : Fin 2) (b : Ledger) :
    Option SessionId → List Letter → List Letter → Prop
  | rests : Act fits p b (b.session p) (b.mail p) []
  | speaks {s : SessionId} {posted : List Letter} : b.session p = some s → Updates s posted →
      Act fits p b (some s) (b.mail p) posted
  | quits {s : SessionId} {posted : List Letter} : b.session p = some s →
      Stopped fits p.rev s posted → Act fits p b none (b.mail p) posted
  | ignores {l : Letter} {rest : List Letter} : b.session p = none → b.mail p = l :: rest →
      ¬ l.IsStart → Act fits p b none rest []
  | isOffered {l : Letter} {rest : List Letter} : b.session p = none → b.mail p = l :: rest →
      l.IsStart → Act fits p b (some l.mark.session) rest []
  | refuses {s : SessionId} {l : Letter} {rest posted : List Letter} : b.session p = some s →
      b.mail p = l :: rest → l.IsStart → Stopped fits p.rev l.mark.session posted →
      Act fits p b (some s) rest posted
  | applies {s : SessionId} {l : Letter} {rest posted : List Letter} : b.session p = some s →
      b.mail p = l :: rest → l.IsUpdate → Updates s posted → Act fits p b (some s) rest posted
  | breaks {s : SessionId} {l : Letter} {rest posted : List Letter} : b.session p = some s →
      b.mail p = l :: rest → l.IsUpdate → Stopped fits p.rev s posted →
      Act fits p b none rest posted

/-- A party begins a session, of which the peer learns if it can read the offer. -/
structure Begins (fits : Fin 2 → Prop) (p : Fin 2) (b : Ledger) (s : SessionId)
    (posted : List Letter) (epochs : Nat) : Prop where
  session_eq : b.session p = none
  initiator_eq : s.initiator = p
  epoch_lt : b.epochs p < s.epoch
  epoch_le : s.epoch ≤ epochs
  fits_self : fits p
  posted : posted = [] ∨
    (fits p.rev ∧ ∃ l : Letter, l.IsStart ∧ l.mark.session = s ∧ posted = [l])

/-- A party leaves its session because of the oldest letter. -/
structure Leaves (p : Fin 2) (b : Ledger) (s : SessionId) (l : Letter) (rest : List Letter) :
    Prop where
  session_eq : b.session p = some s
  mail_eq : b.mail p = l :: rest
  stop : l.IsStop

/-- All that a party may do in its turn.  It only begins a session when that is `new`, and
it only leaves one because of the letter that it has `handled`. -/
inductive TurnEffect (fits : Fin 2 → Prop) (p : Fin 2) (b : Ledger) (new : Prop)
    (handled : Option Letter) : Option SessionId → List Letter → List Letter → Nat → Prop
  | act {session : Option SessionId} {kept posted : List Letter} {epochs : Nat} :
      Act fits p b session kept posted → b.epochs p ≤ epochs →
      TurnEffect fits p b new handled session kept posted epochs
  | begins {s : SessionId} {posted : List Letter} {epochs : Nat} : new →
      Begins fits p b s posted epochs →
      TurnEffect fits p b new handled (some s) (b.mail p) posted epochs
  | leaves {s : SessionId} {l : Letter} {rest : List Letter} : handled = some l →
      Leaves p b s l rest → TurnEffect fits p b new handled none rest [] (b.epochs p)

/-- A turn that begins no session and is not about a letter mixes up no sessions. -/
theorem TurnEffect.act_of_not {new : Prop}
    (h : TurnEffect fits p b new none session kept posted epochs)
    (hnew : ¬ new) : Act fits p b session kept posted := by
  generalize hhandled : (none : Option Letter) = handled at h
  cases h with
  | act hact _ => exact hact
  | begins h _ => exact absurd h hnew
  | leaves h _ =>
      subst hhandled
      cases h

/-- What a call comes to: one party has its turn, and the other one may speak about it. -/
inductive Step (fits : Fin 2 → Prop) (p : Fin 2) (new : Prop) (handled : Option Letter)
    (b : Ledger) : Ledger → Prop
  | intro {session session' : Option SessionId} {kept posted posted' : List Letter}
      {epochs : Nat} : TurnEffect fits p b new handled session kept posted epochs →
      Act fits p.rev (b.turn p session kept posted epochs) session'
        (b.mail p.rev ++ posted) posted' →
      Step fits p new handled b ((b.turn p session kept posted epochs).turn p.rev session'
        (b.mail p.rev ++ posted) posted' (b.epochs p.rev))

end Ledger

end PairEdit.Session
