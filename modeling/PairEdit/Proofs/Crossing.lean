import PairEdit.Proofs.Authorship
import PairEdit.Proofs.Replica

/-!
# Two sides whose edits cross

Each side edits at once and sends; what it sends waits in the other side's inbox.
At any time there is a text where the two sides met last: all that one of them has
taken in from the other leads to it.  From there each side went on with pending edits
of its own, which the other one still has in its inbox, spelled as they were when they
were made.  `Carries` says that taking in an inbox turns these spellings into the
pending edits.
-/

namespace PairEdit

open Edit

/-- The role on the other side. -/
def Role.other : Role → Role
  | .initiator => .receiver
  | .receiver => .initiator

@[simp]
theorem Role.other_other (role : Role) : role.other.other = role := by
  cases role <;> rfl

theorem Role.eq_other_of_ne {role role' : Role} (h : role' ≠ role) : role' = role.other := by
  cases role <;> cases role' <;> first | rfl | exact absurd rfl h

instance {P : Role → Prop} [DecidablePred P] : Decidable (∀ role, P role) :=
  decidable_of_iff (P .initiator ∧ P .receiver)
    ⟨fun h role => match role with
      | .initiator => h.1
      | .receiver => h.2, fun h => ⟨h _, h _⟩⟩

/-- One side of an exchange, with what waits for it, oldest first. -/
structure Side where
  replica : Replica
  inbox : List Update

namespace Side

/-- The side of a role when nothing has happened yet. -/
def start (role : Role) (text : Text) : Side := ⟨⟨.start role, text⟩, []⟩

/-- The side after a local edit. -/
def Edits (s : Side) (e : Edit) (u : Update) (s' : Side) : Prop :=
  e.apply s.replica.text = .ok s'.replica.text ∧
    s.replica.backlog.register? e = some (u, s'.replica.backlog) ∧ s'.inbox = s.inbox

/-- The side after taking in the oldest update. -/
def TakesIn (s : Side) (u : Update) (s' : Side) : Prop :=
  s.inbox = u :: s'.inbox ∧
    s.replica.backlog.check? u s.replica.text.length = some (.ok ()) ∧
    ∃ e, s.replica.backlog.receive? u = some (e, s'.replica.backlog) ∧
      e.apply s.replica.text = .ok s'.replica.text

theorem TakesIn.unique {s s₁ s₂ : Side} {u₁ u₂ : Update} (h₁ : s.TakesIn u₁ s₁)
    (h₂ : s.TakesIn u₂ s₂) : s₁ = s₂ := by
  obtain ⟨hinbox₁, -, e₁, hreceive₁, happly₁⟩ := h₁
  obtain ⟨hinbox₂, -, e₂, hreceive₂, happly₂⟩ := h₂
  obtain ⟨⟨b₁, text₁⟩, inbox₁⟩ := s₁
  obtain ⟨⟨b₂, text₂⟩, inbox₂⟩ := s₂
  rw [hinbox₁, List.cons.injEq] at hinbox₂
  obtain ⟨rfl, rfl⟩ := hinbox₂
  rw [hreceive₁, Option.some.injEq, Prod.mk.injEq] at hreceive₂
  obtain ⟨rfl, rfl⟩ := hreceive₂
  rw [happly₁, Except.ok.injEq] at happly₂
  cases happly₂
  rfl

/-- The side with one more update in its inbox. -/
def awaiting (s : Side) (u : Update) : Side := { s with inbox := s.inbox ++ [u] }

end Side

/-! ## What an inbox will become -/

/-- Of the own edits, the peer has taken in those up to the text `meet`: the peer's
updates have acknowledged `seen` of them, which leads to `base`, and `known` leads
from there to `meet`.  Taking in the inbox turns its updates into `pending`, a list of
edits that follow each other from `meet` on.  The peer made its updates without coming to
hold more than `bound` characters. -/
inductive Carries (bound : Nat) (priority : Priority) :
    Nat → Text → List Edit → Text → List Update → List Edit → Prop
  | nil {seen : Nat} {base meet : Text} {known : List Edit} :
      applyAll known base = .ok meet → Carries bound priority seen base known meet [] []
  | cons {seen : Nat} {base middle base' meet meet' : Text}
      {known retired rest known' pending : List Edit} {u : Update} {inbox : List Update}
      {e : Edit} :
      known = retired ++ rest → u.seen = seen + retired.length →
      applyAll retired base = .ok middle → applyAll rest middle = .ok meet →
      u.edit.apply middle = .ok base' → base'.length ≤ bound →
      Backlog.pass? priority u.edit rest = some (e, known') →
      e.apply meet = .ok meet' → e.ins.length ≤ Word.maxSigned →
      Carries bound priority u.seen base' known' meet' inbox pending →
      Carries bound priority seen base known meet (u :: inbox) (e :: pending)

namespace Carries

variable {bound seen : Nat} {priority : Priority} {base meet : Text} {known pending : List Edit}
variable {inbox : List Update}

theorem length_eq (h : Carries bound priority seen base known meet inbox pending) :
    inbox.length = pending.length := by
  induction h with
  | nil => rfl
  | cons _ _ _ _ _ _ _ _ _ _ ih => rw [List.length_cons, List.length_cons, ih]

theorem applyAll_known (h : Carries bound priority seen base known meet inbox pending) :
    applyAll known base = .ok meet := by
  cases h with
  | nil hknown => exact hknown
  | cons hsplit _ hretired hrest => exact hsplit ▸ applyAll_append_eq_ok_iff.2 ⟨_, hretired, hrest⟩

/-- An edit whose author has taken in everything up to the text `meet` is carried as it
is. -/
theorem awaiting {text text' : Text} {u : Update}
    (h : Carries bound priority seen base known meet inbox pending)
    (hpending : applyAll pending meet = .ok text) (hseen : u.seen = seen + known.length)
    (happly : u.edit.apply text = .ok text') (hins : u.edit.ins.length ≤ Word.maxSigned)
    (htext : text'.length ≤ bound) :
    Carries bound priority seen base known meet (inbox ++ [u]) (pending ++ [u.edit]) := by
  induction h with
  | nil hknown =>
      cases hpending
      exact .cons (List.append_nil _).symm hseen hknown rfl happly htext rfl happly hins (.nil rfl)
  | cons hsplit hu hretired hrest hmiddle hbase hpass hmeet hle _ ih =>
      obtain ⟨next, hnext, hpending⟩ := applyAll_cons_eq_ok_iff.1 hpending
      rw [hmeet] at hnext
      cases hnext
      refine .cons hsplit hu hretired hrest hmiddle hbase hpass hmeet hle (ih hpending ?_)
      rw [Backlog.length_of_pass? hpass, hseen, hu, hsplit, List.length_append, Nat.add_assoc]

/-- When the peer takes in one more own edit `e`, the pending edits of the peer are
rewritten to follow it; the inbox will then be carried past `e` as well. -/
theorem extend {text meet' : Text} {e : Edit}
    (h : Carries bound priority seen base known meet inbox pending)
    (hpending : applyAll pending meet = .ok text) (hroomy : Edit.Roomy text.length pending)
    (happly : e.apply meet = .ok meet') (hins : e.ins.length ≤ Word.maxSigned) :
    ∃ e' pending' text', Backlog.pass? priority.opposite e pending = some (e', pending') ∧
      e'.apply text = .ok text' ∧ applyAll pending' meet' = .ok text' ∧
      Carries bound priority seen base (known ++ [e]) meet' inbox pending' := by
  induction h generalizing e meet' with
  | nil hknown =>
      cases hpending
      refine ⟨e, [], meet', rfl, happly, rfl, .nil ?_⟩
      exact applyAll_append_eq_ok_iff.2 ⟨_, hknown, by rwa [applyAll_singleton]⟩
  | @cons _ _ _ _ _ next _ _ rest _ _ u _ f hsplit hu hretired hrest hmiddle hbase hpass
      hmeet hle hcarries ih =>
      have hmeetlen := length_eq_lengthBefore hpending ▸ hroomy.lengthBefore_le
      obtain ⟨next', hnext, hpending⟩ := applyAll_cons_eq_ok_iff.1 hpending
      rw [hmeet] at hnext
      cases hnext
      have hnextlen := length_eq_lengthBefore hpending ▸ hroomy.2.lengthBefore_le
      have hlen := length_of_apply happly
      have hsigned : Word.maxSigned = 2 ^ 63 - 1 := rfl
      have hmax : Word.max = 2 ^ 64 - 1 := rfl
      -- One square of the grid: `e` and the first pending edit pass each other.
      obtain ⟨e₁, he₁, happly₁, hle₁⟩ :=
        apply_transform? priority.opposite hmeet happly (by omega)
      obtain ⟨f₁, hf₁, hmeet₁, hle₁'⟩ := apply_transform? priority happly hmeet (by omega)
      rw [merged_opposite] at happly₁
      obtain ⟨e', pending', text', hpass', htext', hpending', hcarries'⟩ :=
        ih hpending hroomy.2 happly₁ (by omega)
      refine ⟨e', f₁ :: pending', text', ?_, htext', ?_, ?_⟩
      · rw [Backlog.pass?_cons he₁ (by rwa [Priority.opposite_opposite]), hpass']
        rfl
      · exact applyAll_cons_eq_ok_iff.2 ⟨_, hmeet₁, hpending'⟩
      · have hsquare : Backlog.pass? priority f [e] = some (f₁, [e₁]) := by
          rw [Backlog.pass?_cons hf₁ he₁]
          rfl
        refine .cons (by rw [hsplit, List.append_assoc]) hu hretired ?_ hmiddle hbase
          (Backlog.pass?_append hpass hsquare) hmeet₁ (by omega) hcarries'
        exact applyAll_append_eq_ok_iff.2 ⟨_, hrest, by rwa [applyAll_singleton]⟩

end Carries

/-! ## Two sides that met at a text -/

/-- How a side stands to the text where the two met last.  `heard` is how many of its
edits the peer has taken in, and `theirs` are the pending edits of the peer. -/
structure Standing (bound : Nat) (s : Side) (base meet : Text) (known pending theirs : List Edit)
    (heard : Nat) : Prop where
  outstanding_eq : s.replica.backlog.outstanding = known ++ pending
  applyAll_pending : applyAll pending meet = .ok s.replica.text
  carries : Carries bound s.replica.backlog.priority s.replica.backlog.acknowledged base known meet
    s.inbox theirs
  sent_eq : s.replica.backlog.sent =
    s.replica.backlog.acknowledged + s.replica.backlog.outstanding.length
  heard_eq : heard = s.replica.backlog.acknowledged + known.length
  held : Held bound s.replica.backlog.outstanding base

namespace Standing

variable {s : Side} {u : Update} {base meet : Text} {known pending theirs retired rest : List Edit}
variable {bound heard : Nat}

/-- The outstanding edits lead to the text. -/
theorem applyAll_outstanding (h : Standing bound s base meet known pending theirs heard) :
    applyAll s.replica.backlog.outstanding base = .ok s.replica.text :=
  h.outstanding_eq ▸ applyAll_append_eq_ok_iff.2 ⟨_, h.carries.applyAll_known, h.applyAll_pending⟩

/-- An update that has seen the first known edits leaves the others to be passed. -/
theorem unseen_eq (h : Standing bound s base meet known pending theirs heard)
    (hsplit : known = retired ++ rest)
    (hseen : u.seen = s.replica.backlog.acknowledged + retired.length) :
    s.replica.backlog.unseen u.seen = rest ++ pending := by
  have hdrop : min u.seen s.replica.backlog.sent - s.replica.backlog.acknowledged =
      retired.length := by
    rw [h.sent_eq, h.outstanding_eq, hseen, hsplit, List.length_append, List.length_append]
    omega
  rw [Backlog.unseen, hdrop, h.outstanding_eq, hsplit, List.append_assoc, List.drop_left]

theorem acknowledged_eq (h : Standing bound s base meet known pending theirs heard)
    (hsplit : known = retired ++ rest)
    (hseen : u.seen = s.replica.backlog.acknowledged + retired.length) :
    (s.replica.backlog.retire u.seen).acknowledged = u.seen := by
  rw [Backlog.acknowledged_retire, h.sent_eq, h.outstanding_eq, hseen, hsplit,
    List.length_append, List.length_append]
  omega

/-- The oldest update passes the check. -/
theorem check?_eq (h : Standing bound s base meet known pending theirs heard) {inbox : List Update}
    (hinbox : s.inbox = u :: inbox) (hroomy : s.replica.Roomy) :
    s.replica.backlog.check? u s.replica.text.length = some (.ok ()) := by
  have hcarries := h.carries
  rw [hinbox] at hcarries
  cases hcarries with
  | cons hsplit hseen _ hrest hmiddle =>
      have hlocal := applyAll_append_eq_ok_iff.2 ⟨_, hrest, h.applyAll_pending⟩
      have hroomy' := hroomy
      rw [Replica.Roomy, h.outstanding_eq, hsplit, List.append_assoc] at hroomy'
      have hunseen := h.unseen_eq hsplit hseen
      rw [Backlog.check?_eq_some (hunseen ▸ hlocal) (hunseen ▸ hroomy'.of_append),
        checkBounds_of_apply hmiddle]

end Standing

/-- The two sides met at some text, and their edits since then are on the way.  Neither has held
more than `bound` characters. -/
def Linked (bound : Nat) (s t : Side) : Prop :=
  s.replica.backlog.priority = t.replica.backlog.priority.opposite ∧
    ∃ meet baseS baseT knownS knownT pendingS pendingT,
      Standing bound s baseS meet knownS pendingS pendingT t.replica.backlog.received ∧
        Standing bound t baseT meet knownT pendingT pendingS s.replica.backlog.received

namespace Linked

variable {bound : Nat} {s s' t : Side} {e : Edit} {u : Update}

theorem symm (h : Linked bound s t) : Linked bound t s := by
  obtain ⟨hpriority, meet, baseS, baseT, knownS, knownT, pendingS, pendingT, hs, ht⟩ := h
  refine ⟨?_, meet, baseT, baseS, knownT, knownS, pendingT, pendingS, ht, hs⟩
  rw [hpriority, Priority.opposite_opposite]

/-- Two sides that start from one text. -/
theorem start (role : Role) {text : Text} (htext : text.length ≤ bound) :
    Linked bound (.start role text) (.start role.other text) := by
  refine ⟨by cases role <;> rfl, text, text, text, [], [], [], [], ?_, ?_⟩
  · exact ⟨rfl, rfl, .nil rfl, rfl, rfl, .nil htext⟩
  · exact ⟨rfl, rfl, .nil rfl, rfl, rfl, .nil htext⟩

/-- The texts in between are as long as two texts that were held, at most. -/
theorem roomy (h : Linked bound s t) (hbound : bound + bound ≤ Word.maxSigned) :
    s.replica.Roomy := by
  obtain ⟨-, meet, baseS, baseT, knownS, knownT, pendingS, pendingT, hS, -⟩ := h
  exact hS.held.roomy hS.applyAll_outstanding hbound

/-- When nothing is on the way, both sides are where they met. -/
theorem text_eq (h : Linked bound s t) (hs : s.inbox = []) (ht : t.inbox = []) :
    s.replica.text = t.replica.text := by
  obtain ⟨-, meet, baseS, baseT, knownS, knownT, pendingS, pendingT, hS, hT⟩ := h
  have hlenT := hS.carries.length_eq
  have hlenS := hT.carries.length_eq
  rw [hs, List.length_nil, eq_comm, List.length_eq_zero_iff] at hlenT
  rw [ht, List.length_nil, eq_comm, List.length_eq_zero_iff] at hlenS
  have htextS := hS.applyAll_pending
  have htextT := hT.applyAll_pending
  rw [hlenS, applyAll_nil, Except.ok.injEq] at htextS
  rw [hlenT, applyAll_nil, Except.ok.injEq] at htextT
  rw [← htextS, htextT]

/-- A local edit becomes the last pending one, and waits for the other side. -/
theorem edits (h : Linked bound s t) (hedit : s.Edits e u s')
    (hins : e.ins.length ≤ Word.maxSigned) (htext : s'.replica.text.length ≤ bound) :
    Linked bound s' (t.awaiting u) := by
  obtain ⟨hpriority, meet, baseS, baseT, knownS, knownT, pendingS, pendingT, hS, hT⟩ := h
  obtain ⟨happly, hregister, hinbox⟩ := hedit
  obtain ⟨-, rfl, hbacklog⟩ := Backlog.register?_eq_some_iff.1 hregister
  refine ⟨by rw [hbacklog]; exact hpriority, meet, baseS, baseT, knownS, knownT,
    pendingS ++ [e], pendingT, ?_, ?_⟩
  · refine ⟨?_, ?_, ?_, ?_, ?_, ?_⟩
    · rw [hbacklog, hS.outstanding_eq, List.append_assoc]
    · exact applyAll_append_eq_ok_iff.2 ⟨_, hS.applyAll_pending, by rwa [applyAll_singleton]⟩
    · rw [hbacklog, hinbox]
      exact hS.carries
    · rw [hbacklog, hS.sent_eq, List.length_append]
      rfl
    · rw [hbacklog]
      exact hS.heard_eq
    · rw [hbacklog]
      exact hS.held.concat hS.applyAll_outstanding happly htext
  · refine ⟨hT.outstanding_eq, hT.applyAll_pending, ?_, hT.sent_eq, ?_, hT.held⟩
    · exact hT.carries.awaiting hS.applyAll_pending hT.heard_eq happly hins htext
    · rw [hbacklog]
      exact hT.heard_eq

theorem check?_eq {rest : List Update} (h : Linked bound s t) (hinbox : s.inbox = u :: rest)
    (hroomy : s.replica.Roomy) :
    s.replica.backlog.check? u s.replica.text.length = some (.ok ()) := by
  obtain ⟨-, meet, baseS, baseT, knownS, knownT, pendingS, pendingT, hS, -⟩ := h
  exact hS.check?_eq hinbox hroomy

/-- The oldest update is taken in without an overflow, and then the sides have met one
edit of the other side further. -/
theorem exists_takesIn {rest : List Update} (h : Linked bound s t) (hinbox : s.inbox = u :: rest)
    (hroomy : s.replica.Roomy) (hbound : bound ≤ Word.maxSigned)
    (hcount : s.replica.backlog.received < Word.max) :
    ∃ s', s.TakesIn u s' ∧ Linked bound s' t := by
  have hcheck := h.check?_eq hinbox hroomy
  obtain ⟨hpriority, meet, baseS, baseT, knownS, knownT, pendingS, pendingT, hS, hT⟩ := h
  have hcarries := hS.carries
  rw [hinbox] at hcarries
  cases hcarries with
  | @cons _ _ middle base' _ meet' _ retired rest' known' theirs _ _ f hsplit hseen hretired hrest
      hmiddle hbase hpass hmeet hle hcarries' =>
      have hlocal := applyAll_append_eq_ok_iff.2 ⟨_, hrest, hS.applyAll_pending⟩
      have hsplit' := hS.outstanding_eq
      rw [hsplit, List.append_assoc] at hsplit'
      have hroomyRest : Edit.Roomy s.replica.text.length (rest' ++ pendingS) := by
        rw [Replica.Roomy, hsplit'] at hroomy
        exact hroomy.of_append
      -- Past the known edits the update is `f`, made on the text where the sides met, and
      -- from there it goes on past the pending ones.
      obtain ⟨e, pending', text', hpass', happly, hpending', hcarriesT⟩ :=
        hT.carries.extend hS.applyAll_pending hroomyRest.of_append hmeet hle
      rw [← hpriority] at hpass'
      have hpassed := Backlog.pass?_append hpass hpass'
      have hreceive := Backlog.receive?_eq_some_iff.2
        ⟨hcount, _, hS.unseen_eq hsplit hseen ▸ hpassed, rfl⟩
      refine ⟨⟨⟨_, text'⟩, rest⟩, ⟨hinbox, hcheck, e, hreceive, happly⟩, ?_⟩
      have hacknowledged := hS.acknowledged_eq hsplit hseen
      have hlen := Backlog.length_of_pass? hpass
      have hlen' := Backlog.length_of_pass? hpass'
      have hsent := hS.sent_eq
      have hheardS := hS.heard_eq
      have hheardT := hT.heard_eq
      rw [hsplit', List.length_append, List.length_append] at hsent
      rw [hsplit, List.length_append] at hheardS
      refine ⟨by simpa using hpriority, meet', base', baseT, known', knownT ++ [f], pending',
        theirs, ⟨rfl, hpending', ?_, ?_, ?_, ?_⟩, ⟨?_, ?_, hcarriesT, hT.sent_eq, ?_, hT.held⟩⟩
      · simpa only [hacknowledged, Backlog.priority_retire] using hcarries'
      · simp only [hacknowledged, Backlog.sent_retire, List.length_append]
        omega
      · simp only [hacknowledged]
        omega
      · have hheld := hS.held
        rw [hsplit'] at hheld
        exact hheld.receive hretired hlocal hroomyRest hmiddle hbase hbound hpassed
      · rw [hT.outstanding_eq, List.append_assoc]
        rfl
      · obtain ⟨next, hnext, htheirs⟩ := applyAll_cons_eq_ok_iff.1 hT.applyAll_pending
        rw [hmeet] at hnext
        cases hnext
        exact htheirs
      · simp only [List.length_append, List.length_singleton]
        omega

theorem takesIn (h : Linked bound s t) (hs : s.TakesIn u s') (hroomy : s.replica.Roomy)
    (hbound : bound ≤ Word.maxSigned) : Linked bound s' t := by
  obtain ⟨hinbox, -, e, hreceive, -⟩ := id hs
  obtain ⟨s'', hs'', hlinked⟩ :=
    h.exists_takesIn hinbox hroomy hbound (Backlog.receive?_eq_some_iff.1 hreceive).1
  rwa [hs.unique hs'']

end Linked

/-! ## Exchanges -/

/-- The two sides of an exchange, by their roles. -/
abbrev Exchange := Role → Side

namespace Exchange

/-- Both sides hold the text, and nothing has happened yet. -/
def start (text : Text) : Exchange := fun role => .start role text

/-- No text on either side is too long for a signed word, nor a text that an outstanding edit
applies to. -/
def Roomy (x : Exchange) : Prop := ∀ role, (x role).replica.Roomy

instance (x : Exchange) : Decidable x.Roomy :=
  inferInstanceAs (Decidable (∀ role, (x role).replica.Roomy))

/-- One side edits, and the other one will hear of it; or one side takes in the oldest
update that waits for it. -/
inductive Step (x : Exchange) : Exchange → Prop
  | edit {r : Role} {e : Edit} {u : Update} {s : Side} :
      (x r).Edits e u s → Step x fun role => if role = r then s else (x role).awaiting u
  | deliver {r : Role} {u : Update} {s : Side} :
      (x r).TakesIn u s → Step x fun role => if role = r then s else x role

/-- What an exchange may come to without a text becoming too long. -/
inductive Reachable (text : Text) : Exchange → Prop
  | start : Roomy (start text) → Reachable text (start text)
  | step {x y : Exchange} : Reachable text x → Step x y → y.Roomy → Reachable text y

theorem Reachable.roomy {text : Text} {x : Exchange} (h : Reachable text x) : x.Roomy := by
  cases h with
  | start hroomy => exact hroomy
  | step _ _ hroomy => exact hroomy

/-- The sides of an exchange stay linked, whoever does something. -/
theorem Step.linked {bound : Nat} {x y : Exchange} {role : Role} (h : Step x y) (hx : x.Roomy)
    (hy : ∀ role, (y role).replica.text.length ≤ bound) (hbound : bound ≤ Word.maxSigned)
    (hlinked : Linked bound (x role) (x role.other)) :
    Linked bound (y role) (y role.other) := by
  have hne : role.other ≠ role := by cases role <;> decide
  cases h with
  | @edit actor e u s hedit =>
      have htext := hy actor
      simp only [if_true] at htext
      have hins := Nat.le_trans (Nat.le_trans (length_ins_le_of_apply hedit.1) htext) hbound
      rcases Decidable.em (actor = role) with rfl | hactor
      · simpa [hne] using hlinked.edits hedit hins htext
      · obtain rfl := Role.eq_other_of_ne hactor
        simpa [hne.symm] using (hlinked.symm.edits hedit hins htext).symm
  | @deliver actor u s hs =>
      rcases Decidable.em (actor = role) with rfl | hactor
      · simpa [hne] using hlinked.takesIn hs (hx actor) hbound
      · obtain rfl := Role.eq_other_of_ne hactor
        simpa [hne.symm] using (hlinked.symm.takesIn hs (hx role.other) hbound).symm

theorem Reachable.linked {text : Text} {x : Exchange} (h : Reachable text x) (role : Role) :
    Linked Word.maxSigned (x role) (x role.other) := by
  induction h with
  | start hroomy => exact .start role (hroomy role).length_le
  | step hx hstep hroomy ih =>
      exact hstep.linked hx.roomy (fun role => (hroomy role).length_le) (Nat.le_refl _) ih

/-- What an exchange may come to while no side holds more than `bound` characters. -/
inductive Within (bound : Nat) (text : Text) : Exchange → Prop
  | start : text.length ≤ bound → Within bound text (start text)
  | step {x y : Exchange} : Within bound text x → Step x y →
      (∀ role, (y role).replica.text.length ≤ bound) → Within bound text y

theorem Within.reachable_and_linked {bound : Nat} {text : Text} {x : Exchange}
    (h : Within bound text x) (hbound : bound + bound ≤ Word.maxSigned) :
    Reachable text x ∧ ∀ role, Linked bound (x role) (x role.other) := by
  have hle : bound ≤ Word.maxSigned := Nat.le_trans (Nat.le_add_right ..) hbound
  induction h with
  | start htext =>
      have hlinked := fun role => Linked.start role htext
      exact ⟨.start fun role => (hlinked role).roomy hbound, hlinked⟩
  | step hx hstep hy ih =>
      obtain ⟨hreachable, hlinked⟩ := ih
      have hlinked' := fun role => hstep.linked hreachable.roomy hy hle (hlinked role)
      exact ⟨hreachable.step hstep fun role => (hlinked' role).roomy hbound, hlinked'⟩

/-- The texts that outstanding edits apply to are at most twice as long as those that the two
sides hold.  So they stay below 2 ^ 63 characters as long as the latter stay below 2 ^ 62. -/
theorem Within.reachable {bound : Nat} {text : Text} {x : Exchange} (h : Within bound text x)
    (hbound : bound + bound ≤ Word.maxSigned) : Reachable text x :=
  (h.reachable_and_linked hbound).1

/-- Whatever the two sides have edited and in whatever order updates have arrived, the
oldest update that waits for a side passes its check, is transformed without an overflow
and fits the text there.  When nothing waits, both sides hold the same text.

The texts that are to stay below 2 ^ 63 characters are those that the two sides hold and those
that outstanding edits apply to.  Nobody holds the latter; by `Within.reachable` they stay below
2 ^ 63 as long as the former stay below 2 ^ 62. -/
theorem exchange_converges {text : Text} {x : Exchange} (h : Reachable text x) :
    (∀ role u rest, (x role).inbox = u :: rest →
      (x role).replica.backlog.received < Word.max →
        (x role).replica.backlog.check? u (x role).replica.text.length = some (.ok ()) ∧
        ∃ e b' text', (x role).replica.backlog.receive? u = some (e, b') ∧
          e.checkBounds (x role).replica.text.length = .ok () ∧
          e.apply (x role).replica.text = .ok text' ∧
          Step x fun r => if r = role then ⟨⟨b', text'⟩, rest⟩ else x r) ∧
    ((∀ role, (x role).inbox = []) →
      (x .initiator).replica.text = (x .receiver).replica.text) := by
  constructor
  · intro role u rest hinbox hcount
    obtain ⟨s', htakes, -⟩ := (h.linked role).exists_takesIn hinbox (h.roomy role)
      (Nat.le_refl _) hcount
    obtain ⟨hinbox', hcheck, e, hreceive, happly⟩ := id htakes
    rw [hinbox, List.cons.injEq] at hinbox'
    refine ⟨hcheck, e, _, _, hreceive, checkBounds_of_apply happly, happly, ?_⟩
    rw [hinbox'.2]
    exact .deliver htakes
  · intro hempty
    exact (h.linked .initiator).text_eq (hempty _) (hempty _)

/-- Both sides insert at the same place, then each hears of the other's insertion. -/
theorem exchange_converges_same_place :
    ∃ x, Reachable ['a', 'b'] x ∧ (x .initiator).replica.text = ['a', 'I', 'R', 'b'] ∧
      (x .initiator).replica.text = (x .receiver).replica.text := by
  have hstart : Reachable ['a', 'b'] (start ['a', 'b']) :=
    .start (by decide)
  have h₁ := hstart.step (.edit (r := .initiator) (e := ⟨1, 0, ['I']⟩)
    (s := ⟨⟨⟨[⟨1, 0, ['I']⟩], 1, 0, 0, .localFirst⟩, ['a', 'I', 'b']⟩, []⟩) ⟨rfl, rfl, rfl⟩)
    (by decide)
  have h₂ := h₁.step (.edit (r := .receiver) (e := ⟨1, 0, ['R']⟩)
    (s := ⟨⟨⟨[⟨1, 0, ['R']⟩], 1, 0, 0, .remoteFirst⟩, ['a', 'R', 'b']⟩,
      [⟨⟨1, 0, ['I']⟩, 1, 0⟩]⟩) ⟨rfl, rfl, rfl⟩) (by decide)
  have h₃ := h₂.step (.deliver (r := .receiver)
    (s := ⟨⟨⟨[⟨2, 0, ['R']⟩], 1, 0, 1, .remoteFirst⟩, ['a', 'I', 'R', 'b']⟩, []⟩)
    ⟨rfl, rfl, _, rfl, rfl⟩) (by decide)
  have h₄ := h₃.step (.deliver (r := .initiator)
    (s := ⟨⟨⟨[⟨1, 0, ['I']⟩], 1, 0, 1, .localFirst⟩, ['a', 'I', 'R', 'b']⟩, []⟩)
    ⟨rfl, rfl, _, rfl, rfl⟩) (by decide)
  exact ⟨_, h₄, rfl, (exchange_converges h₄).2 fun role => by cases role <;> rfl⟩

end Exchange

end PairEdit
