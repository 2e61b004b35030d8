import Mathlib.Data.List.Forall2
import PairEdit.Proofs.Crossing
import PairEdit.Strategy

/-!
# Sides that take turns

A party that edits only while nothing waits for it always edits the text that the other
side will have once its inbox is empty.  Nothing crosses then: every update says that its
author has applied all that was ever sent to it, so the backlog is retired in full before
the update is received, and the edit is applied as it was made.  The strategy that never
transforms does the same, step by step.
-/

namespace PairEdit.Alternation

open Edit

/-- One side under any strategy, with what waits for it, oldest first. -/
structure Desk where
  strategy : Strategy
  text : Text
  inbox : List Update
deriving DecidableEq

namespace Desk

/-- A local edit: the text with it, and the update to send. -/
def edit? (d : Desk) (e : Edit) : Option (Update × Desk) := do
  let text ← (e.apply d.text).toOption
  let (u, strategy) ← d.strategy.register? e
  return (u, { d with strategy := strategy, text := text })

/-- Take in the oldest update, once it has passed the check. -/
def takeIn? (d : Desk) : Option Desk :=
  match d.inbox with
  | [] => none
  | u :: inbox => do
      let checked ← d.strategy.check? u d.text.length
      checked.toOption
      let (e, strategy) ← d.strategy.receive? u
      let text ← (e.apply d.text).toOption
      return ⟨strategy, text, inbox⟩

/-- The side with one more update in its inbox. -/
def awaiting (d : Desk) (u : Update) : Desk := { d with inbox := d.inbox ++ [u] }

end Desk

/-- What can happen next: somebody edits, or somebody takes in the oldest update. -/
inductive Action where
  | edit (role : Role) (e : Edit)
  | deliver (role : Role)
deriving DecidableEq

/-- The two sides, by their roles. -/
abbrev Desks := Role → Desk

namespace Desks

/-- Both sides hold the text, and nothing has happened yet. -/
def start (kind : Strategy.Kind) (text : Text) : Desks :=
  fun role => ⟨.start kind role, text, []⟩

/-- One action, as far as it is possible.  An edit needs an empty inbox: a party for
which something waits has to take in all of it first. -/
def act? (x : Desks) : Action → Option Desks
  | .edit role e =>
      if (x role).inbox = [] then
        ((x role).edit? e).map fun (u, d) r => if r = role then d else (x r).awaiting u
      else none
  | .deliver role => (x role).takeIn?.map fun d r => if r = role then d else x r

/-- The actions one after another; the result holds the sides before the first action
and after every one. -/
def course? (x : Desks) : List Action → Option (List Desks)
  | [] => some [x]
  | a :: rest => do
      let y ← x.act? a
      let later ← y.course? rest
      return x :: later

end Desks

/-! ## What the two operations do -/

theorem toOption_eq_some_iff {ε α : Type} {result : Except ε α} {a : α} :
    result.toOption = some a ↔ result = .ok a := by
  cases result <;> simp [Except.toOption]

namespace Desk

variable {d d' : Desk} {e : Edit} {u : Update} {inbox : List Update}

theorem edit?_eq_some_iff :
    d.edit? e = some (u, d') ↔ ∃ text strategy, e.apply d.text = .ok text ∧
      d.strategy.register? e = some (u, strategy) ∧ d' = ⟨strategy, text, d.inbox⟩ := by
  simp only [edit?, Option.bind_eq_bind, Option.bind_eq_some_iff, toOption_eq_some_iff,
    Option.pure_def, Option.some.injEq, Prod.mk.injEq, Prod.exists]
  constructor
  · rintro ⟨text, htext, u', strategy, hregister, rfl, rfl⟩
    exact ⟨text, strategy, htext, hregister, rfl⟩
  · rintro ⟨text, strategy, htext, hregister, rfl⟩
    exact ⟨text, htext, u, strategy, hregister, rfl, rfl⟩

theorem takeIn?_eq_some_iff :
    d.takeIn? = some d' ↔ ∃ u inbox e strategy text, d.inbox = u :: inbox ∧
      d.strategy.check? u d.text.length = some (.ok ()) ∧
      d.strategy.receive? u = some (e, strategy) ∧ e.apply d.text = .ok text ∧
      d' = ⟨strategy, text, inbox⟩ := by
  unfold takeIn?
  cases hinbox : d.inbox with
  | nil => simp
  | cons u inbox =>
      simp only [Option.bind_eq_bind, Option.bind_eq_some_iff, toOption_eq_some_iff,
        Option.pure_def, Option.some.injEq, Prod.exists, List.cons.injEq]
      constructor
      · rintro ⟨checked, hcheck, _, rfl, e, strategy, hreceive, text, htext, rfl⟩
        exact ⟨u, inbox, e, strategy, text, ⟨rfl, rfl⟩, hcheck, hreceive, htext, rfl⟩
      · rintro ⟨_, _, e, strategy, text, ⟨rfl, rfl⟩, hcheck, hreceive, htext, rfl⟩
        exact ⟨_, hcheck, (), rfl, e, strategy, hreceive, text, htext, rfl⟩

end Desk

/-! ## Nothing crosses -/

/-- How a side with a backlog stands to the side `t` across from it, whose backlog is
`theirs`: all that waits for it was made knowing all it has sent, and leads to the text
of the other side. -/
structure Follows (s : Desk) (b : Backlog) (t : Desk) (theirs : Backlog) : Prop where
  strategy_eq : s.strategy = .backlog b
  seen_eq : ∀ u ∈ s.inbox, u.seen = b.sent
  received_eq : b.received + s.inbox.length = theirs.sent
  sent_eq : b.sent = b.acknowledged + b.outstanding.length
  sent_le : b.sent ≤ Word.max
  applyAll_inbox : t.inbox = [] → applyAll (s.inbox.map Update.edit) s.text = .ok t.text

/-- Two sides of which only one has something waiting for it, and each follows the
other. -/
structure Paired (s t : Desk) : Prop where
  turn : s.inbox = [] ∨ t.inbox = []
  follows : ∃ b b', Follows s b t b' ∧ Follows t b' s b

namespace Paired

variable {s s' t : Desk} {e : Edit} {u : Update} {inbox : List Update}

theorem symm (h : Paired s t) : Paired t s := by
  obtain ⟨b, b', hs, ht⟩ := h.follows
  exact ⟨h.turn.symm, b', b, ht, hs⟩

theorem start (role : Role) (text : Text) :
    Paired (Desks.start .backlog text role) (Desks.start .backlog text role.other) := by
  refine ⟨.inl rfl, .start role, .start role.other, ?_, ?_⟩
  · exact ⟨rfl, by simp [Desks.start], rfl, rfl, Nat.zero_le _, fun _ => rfl⟩
  · exact ⟨rfl, by simp [Desks.start], rfl, rfl, Nat.zero_le _, fun _ => rfl⟩

/-- A party whose inbox is empty edits. -/
theorem edit (h : Paired s t) (hempty : s.inbox = []) (hedit : s.edit? e = some (u, s')) :
    Paired s' (t.awaiting u) := by
  obtain ⟨b, b', hs, ht⟩ := h.follows
  obtain ⟨text, strategy, happly, hregister, rfl⟩ := Desk.edit?_eq_some_iff.1 hedit
  rw [hs.strategy_eq] at hregister
  obtain ⟨⟨u', mine⟩, hmine, heq⟩ := Option.map_eq_some_iff.1 hregister
  cases heq
  obtain ⟨hle, rfl, rfl⟩ := Backlog.register?_eq_some_iff.1 hmine
  have hreceived := hs.received_eq
  rw [hempty, List.length_nil, Nat.add_zero] at hreceived
  refine ⟨.inl hempty, _, b', ⟨rfl, ?_, ?_, ?_, hle, ?_⟩, ⟨ht.strategy_eq, ?_, ?_, ht.sent_eq,
    ht.sent_le, fun _ => ?_⟩⟩
  · simp [hempty]
  · simpa [hempty] using hreceived
  · rw [List.length_append, List.length_singleton, ← Nat.add_assoc, ← hs.sent_eq]
  · intro hnil
    simp [Desk.awaiting] at hnil
  · intro v hv
    rcases List.mem_append.1 hv with hv | hv
    · exact ht.seen_eq v hv
    · cases List.mem_singleton.1 hv
      exact hreceived
  · rw [← ht.received_eq, Desk.awaiting, List.length_append, List.length_singleton,
      Nat.add_assoc]
  · rw [Desk.awaiting, List.map_append]
    exact applyAll_append_eq_ok_iff.2 ⟨_, ht.applyAll_inbox hempty, by simpa using happly⟩

/-- The oldest update retires the whole backlog, so that nothing is left to transform
it. -/
theorem exists_receive? (h : Paired s t) (hinbox : s.inbox = u :: inbox) :
    ∃ b b' mine, Follows s b t b' ∧ Follows t b' s b ∧ b.unseen u.seen = [] ∧
      b.receive? u = some (u.edit, mine) ∧ mine.outstanding = [] ∧ mine.sent = b.sent ∧
      mine.acknowledged = b.sent ∧ mine.received = b.received + 1 := by
  obtain ⟨b, b', hs, ht⟩ := h.follows
  have hseen : u.seen = b.sent := hs.seen_eq u (hinbox ▸ List.mem_cons_self)
  have hsent := hs.sent_eq
  have hunseen : b.unseen u.seen = [] := by
    rw [Backlog.unseen, hseen, Nat.min_self]
    exact List.drop_eq_nil_of_le (by omega)
  have hcount : b.received + 1 ≤ Word.max := by
    have hreceived := hs.received_eq
    have hle := ht.sent_le
    rw [hinbox, List.length_cons] at hreceived
    omega
  refine ⟨b, b', _, hs, ht, hunseen,
    Backlog.receive?_eq_some_iff.2 ⟨hcount, [], by rw [hunseen]; rfl, rfl⟩, rfl,
    b.sent_retire _, ?_, rfl⟩
  rw [Backlog.acknowledged_retire, hseen]
  omega

/-- A waiting update fits the text as it is, and the rest of the inbox leads on. -/
theorem exists_apply (h : Paired s t) (hinbox : s.inbox = u :: inbox) :
    t.inbox = [] ∧ ∃ text, u.edit.apply s.text = .ok text ∧
      applyAll (inbox.map Update.edit) text = .ok t.text := by
  have hempty : t.inbox = [] := h.turn.resolve_left (by simp [hinbox])
  obtain ⟨b, b', hs, -⟩ := h.follows
  have hall := hs.applyAll_inbox hempty
  rw [hinbox, List.map_cons] at hall
  exact ⟨hempty, applyAll_cons_eq_ok_iff.1 hall⟩

/-- The oldest update passes the check, in a text that a string can hold. -/
theorem check?_eq (h : Paired s t) (hinbox : s.inbox = u :: inbox)
    (hlen : s.text.length ≤ Word.maxSigned) :
    s.strategy.check? u s.text.length = some (.ok ()) := by
  obtain ⟨b, b', mine, hs, -, hunseen, -⟩ := h.exists_receive? hinbox
  obtain ⟨-, text, happly, -⟩ := h.exists_apply hinbox
  rw [hs.strategy_eq]
  have hsame : applyAll (b.unseen u.seen) s.text = .ok s.text := by rw [hunseen]; rfl
  have hroomy : Roomy s.text.length (b.unseen u.seen) := by rw [hunseen]; exact hlen
  rw [Strategy.check?, Backlog.check?_eq_some hsame hroomy, checkBounds_of_apply happly]

/-- The edit comes out unchanged, and then there is no backlog. -/
theorem receive?_eq (h : Paired s t) (hinbox : s.inbox = u :: inbox) :
    ∃ strategy, s.strategy.receive? u = some (u.edit, strategy) ∧ strategy.outstanding = [] := by
  obtain ⟨b, b', mine, hs, -, -, hreceive, houtstanding, -⟩ := h.exists_receive? hinbox
  refine ⟨.backlog mine, ?_, houtstanding⟩
  rw [hs.strategy_eq, Strategy.receive?, hreceive]
  rfl

theorem takeIn (h : Paired s t) (htake : s.takeIn? = some s') : Paired s' t := by
  obtain ⟨u, inbox, e, strategy, text, hinbox, -, hreceive, happly, rfl⟩ :=
    Desk.takeIn?_eq_some_iff.1 htake
  obtain ⟨b, b', mine, hs, ht, -, hmine, houtstanding, hsent, hacknowledged, hreceived⟩ :=
    h.exists_receive? hinbox
  obtain ⟨hempty, text', happly', hrest⟩ := h.exists_apply hinbox
  rw [hs.strategy_eq, Strategy.receive?, hmine] at hreceive
  cases hreceive
  rw [happly] at happly'
  cases happly'
  have hcount := hs.received_eq
  rw [hinbox, List.length_cons] at hcount
  refine ⟨.inr hempty, mine, b', ⟨rfl, ?_, ?_, ?_, ?_, fun _ => hrest⟩,
    ⟨ht.strategy_eq, by simp [hempty], ?_, ht.sent_eq, ht.sent_le, ?_⟩⟩
  · intro v hv
    rw [hsent]
    exact hs.seen_eq v (hinbox ▸ List.mem_cons_of_mem _ hv)
  · dsimp only
    omega
  · rw [hsent, hacknowledged, houtstanding, List.length_nil, Nat.add_zero]
  · rw [hsent]
    exact hs.sent_le
  · rw [hsent]
    exact ht.received_eq
  · intro hnil
    rw [hempty]
    rw [show inbox = [] from hnil] at hrest
    exact hrest.symm

end Paired

/-! ## The same without transforming -/

/-- The side `t` has no backlog and otherwise holds what `s` holds; what waits for it are
the same edits, without the counters. -/
structure Mirrors (s t : Desk) : Prop where
  plain : t.strategy = .plain
  text_eq : t.text = s.text
  inbox_eq : t.inbox.map Update.edit = s.inbox.map Update.edit

namespace Mirrors

variable {s s' t across : Desk} {e : Edit} {u : Update} {inbox : List Update}

theorem inbox_eq_nil (h : Mirrors s t) (hempty : s.inbox = []) : t.inbox = [] := by
  have hinbox := h.inbox_eq
  rwa [hempty, List.map_nil, List.map_eq_nil_iff] at hinbox

theorem inbox_eq_cons (h : Mirrors s t) (hinbox : s.inbox = u :: inbox) :
    ∃ v rest, t.inbox = v :: rest ∧ v.edit = u.edit ∧
      rest.map Update.edit = inbox.map Update.edit := by
  have heq := h.inbox_eq
  rw [hinbox, List.map_cons, List.map_eq_cons_iff] at heq
  exact heq

/-- An edit that one side can make, the other one can make as well. -/
theorem edit (h : Mirrors s t) (hedit : s.edit? e = some (u, s')) :
    ∃ v t', t.edit? e = some (v, t') ∧ v.edit = u.edit ∧ Mirrors s' t' := by
  obtain ⟨text, strategy, happly, hregister, rfl⟩ := Desk.edit?_eq_some_iff.1 hedit
  refine ⟨⟨e, 0, 0⟩, ⟨.plain, text, t.inbox⟩, Desk.edit?_eq_some_iff.2
    ⟨text, .plain, by rwa [h.text_eq], by rw [h.plain]; rfl, rfl⟩, ?_, rfl, rfl, h.inbox_eq⟩
  cases hs : s.strategy with
  | plain =>
      rw [hs] at hregister
      cases hregister
      rfl
  | backlog b =>
      rw [hs] at hregister
      obtain ⟨⟨u', mine⟩, hmine, heq⟩ := Option.map_eq_some_iff.1 hregister
      cases heq
      rw [(Backlog.register?_eq_some_iff.1 hmine).2.1]

theorem awaiting (h : Mirrors s t) {v : Update} (hedit : v.edit = u.edit) :
    Mirrors (s.awaiting u) (t.awaiting v) := by
  refine ⟨h.plain, h.text_eq, ?_⟩
  rw [Desk.awaiting, Desk.awaiting, List.map_append, List.map_append, h.inbox_eq,
    List.map_singleton, List.map_singleton, hedit]

/-- An update that nothing crossed passes the plain check too. -/
theorem check?_eq (h : Mirrors s t) (hpaired : Paired s across) (hinbox : s.inbox = u :: inbox)
    {v : Update} (hedit : v.edit = u.edit) :
    t.strategy.check? v t.text.length = some (.ok ()) := by
  obtain ⟨-, text, happly, -⟩ := hpaired.exists_apply hinbox
  rw [h.plain, Strategy.check?, h.text_eq, hedit, checkBounds_of_apply happly]

theorem takeIn (h : Mirrors s t) (hpaired : Paired s across) (htake : s.takeIn? = some s') :
    ∃ t', t.takeIn? = some t' ∧ Mirrors s' t' := by
  obtain ⟨u, inbox, e, strategy, text, hinbox, -, hreceive, happly, rfl⟩ :=
    Desk.takeIn?_eq_some_iff.1 htake
  obtain ⟨v, rest, hrest, hedit, heq⟩ := h.inbox_eq_cons hinbox
  obtain ⟨strategy', hreceive', -⟩ := hpaired.receive?_eq hinbox
  rw [hreceive'] at hreceive
  cases hreceive
  refine ⟨⟨.plain, text, rest⟩, Desk.takeIn?_eq_some_iff.2 ⟨v, rest, v.edit, .plain, text, hrest,
    h.check?_eq hpaired hinbox hedit, by rw [h.plain]; rfl, ?_, rfl⟩, rfl, rfl, heq⟩
  rwa [hedit, h.text_eq]

end Mirrors

/-! ## Runs -/

/-- The two strategies after the same actions by turns. -/
structure Alike (x y : Desks) : Prop where
  paired : ∀ role, Paired (x role) (x role.other)
  mirrors : ∀ role, Mirrors (x role) (y role)

namespace Alike

variable {x x' y : Desks}

theorem start (text : Text) : Alike (Desks.start .backlog text) (Desks.start .plain text) :=
  ⟨fun role => .start role text, fun _ => ⟨rfl, rfl, rfl⟩⟩

/-- It is enough to look at the two sides from one end. -/
theorem of_role (role : Role) (hpaired : Paired (x role) (x role.other))
    (hmirrors : Mirrors (x role) (y role))
    (hother : Mirrors (x role.other) (y role.other)) : Alike x y := by
  constructor
  · intro role'
    rcases Decidable.em (role' = role) with rfl | hne
    · exact hpaired
    · rw [Role.eq_other_of_ne hne, Role.other_other]
      exact hpaired.symm
  · intro role'
    rcases Decidable.em (role' = role) with rfl | hne
    · exact hmirrors
    · rwa [Role.eq_other_of_ne hne]

/-- An action that is possible with the one strategy is possible with the other one, and
the sides stay alike. -/
theorem act (h : Alike x y) {a : Action} (hact : x.act? a = some x') :
    ∃ y', y.act? a = some y' ∧ Alike x' y' := by
  cases a with
  | edit actor e =>
      have hne : actor.other ≠ actor := by cases actor <;> decide
      simp only [Desks.act?] at hact
      split at hact
      case isFalse => cases hact
      case isTrue hempty =>
        obtain ⟨⟨u, d⟩, hedit, rfl⟩ := Option.map_eq_some_iff.1 hact
        obtain ⟨v, d', hedit', hsame, hmirrors⟩ := (h.mirrors actor).edit hedit
        have hpaired := (h.paired actor).edit hempty hedit
        have hother := (h.mirrors actor.other).awaiting hsame
        refine ⟨fun r => if r = actor then d' else (y r).awaiting v, ?_,
          .of_role actor (by simpa [hne]) (by simpa) (by simpa [hne])⟩
        rw [Desks.act?, if_pos ((h.mirrors actor).inbox_eq_nil hempty), hedit']
        rfl
  | deliver actor =>
      have hne : actor.other ≠ actor := by cases actor <;> decide
      obtain ⟨d, htake, rfl⟩ := Option.map_eq_some_iff.1 hact
      obtain ⟨d', htake', hmirrors⟩ := (h.mirrors actor).takeIn (h.paired actor) htake
      have hpaired := (h.paired actor).takeIn htake
      refine ⟨fun r => if r = actor then d' else y r, by rw [Desks.act?, htake']; rfl,
        .of_role actor (by simpa [hne]) (by simpa) ?_⟩
      simpa [hne] using h.mirrors actor.other

theorem course (h : Alike x y) {actions : List Action} {xs : List Desks}
    (hrun : x.course? actions = some xs) :
    ∃ ys, y.course? actions = some ys ∧ List.Forall₂ Alike xs ys := by
  induction actions generalizing x y xs with
  | nil =>
      cases hrun
      exact ⟨[y], rfl, .cons h .nil⟩
  | cons a rest ih =>
      simp only [Desks.course?, Option.bind_eq_bind, Option.bind_eq_some_iff, Option.pure_def,
        Option.some.injEq] at hrun
      obtain ⟨x', hact, xs', hrest, rfl⟩ := hrun
      obtain ⟨y', hact', hnext⟩ := h.act hact
      obtain ⟨ys', hrest', hlater⟩ := ih hnext hrest
      exact ⟨y :: ys', by simp [Desks.course?, hact', hrest'], .cons h hlater⟩

end Alike

/-- What the runs of the two strategies show after the same actions: `x` with a backlog
and `y` without. -/
structure Agree (x y : Desks) : Prop where
  /-- Both runs hold the same two texts. -/
  text_eq : ∀ role, (x role).text = (y role).text
  /-- The update to be received next comes out as it was made, and leaves no backlog. -/
  receive?_eq : ∀ role u rest, (x role).inbox = u :: rest → ∃ strategy,
    (x role).strategy.receive? u = some (u.edit, strategy) ∧ strategy.outstanding = []
  /-- In a text that a string can hold, both checks pass; and both sides can take in the
  edit, to the same effect. -/
  check?_eq : ∀ role u rest, (x role).inbox = u :: rest →
    (x role).text.length ≤ Word.maxSigned → ∃ v rest' d d',
      (y role).inbox = v :: rest' ∧ v.edit = u.edit ∧
      (x role).strategy.check? u (x role).text.length = some (.ok ()) ∧
      (y role).strategy.check? v (y role).text.length = some (.ok ()) ∧
      (x role).takeIn? = some d ∧ (y role).takeIn? = some d' ∧ d.text = d'.text

theorem Alike.agree {x y : Desks} (h : Alike x y) : Agree x y where
  text_eq role := (h.mirrors role).text_eq.symm
  receive?_eq role _ _ hinbox := (h.paired role).receive?_eq hinbox
  check?_eq role u rest hinbox hlen := by
    have hcheck := (h.paired role).check?_eq hinbox hlen
    obtain ⟨strategy, hreceive, -⟩ := (h.paired role).receive?_eq hinbox
    obtain ⟨-, text, happly, -⟩ := (h.paired role).exists_apply hinbox
    obtain ⟨v, rest', hinbox', hedit, -⟩ := (h.mirrors role).inbox_eq_cons hinbox
    have htake : (x role).takeIn? = some ⟨strategy, text, rest⟩ :=
      Desk.takeIn?_eq_some_iff.2 ⟨_, _, _, _, _, hinbox, hcheck, hreceive, happly, rfl⟩
    obtain ⟨d', htake', hmirrors⟩ := (h.mirrors role).takeIn (h.paired role) htake
    exact ⟨v, rest', _, d', hinbox', hedit, hcheck,
      (h.mirrors role).check?_eq (h.paired role) hinbox hedit, htake, htake',
      hmirrors.text_eq.symm⟩

/-- However the two sides take turns, and in whatever order they take updates in: the
same actions are possible without any backlog, and before the first action and after each
one both strategies show the same. -/
theorem turns_need_no_transformation {text : Text} {actions : List Action} {xs : List Desks}
    (h : (Desks.start .backlog text).course? actions = some xs) :
    ∃ ys, (Desks.start .plain text).course? actions = some ys ∧ List.Forall₂ Agree xs ys := by
  obtain ⟨ys, hys, halike⟩ := (Alike.start text).course h
  exact ⟨ys, hys, halike.imp fun _ _ => Alike.agree⟩

/-- Two edits of the initiator, both taken in, and two edits in answer. -/
def twoTurns : List Action :=
  [.edit .initiator ⟨1, 0, ['x']⟩, .edit .initiator ⟨0, 1, []⟩,
    .deliver .receiver, .deliver .receiver,
    .edit .receiver ⟨2, 0, ['y']⟩, .edit .receiver ⟨0, 1, ['z']⟩,
    .deliver .initiator, .deliver .initiator]

theorem turns_need_no_transformation_twoTurns :
    ∃ xs ys, (Desks.start .backlog ['a', 'b']).course? twoTurns = some xs ∧
      (Desks.start .plain ['a', 'b']).course? twoTurns = some ys ∧
      List.Forall₂ Agree xs ys ∧
      (xs.map fun x => ((x .initiator).text, (x .receiver).text)).getLast? =
        some (['z', 'b', 'y'], ['z', 'b', 'y']) := by
  obtain ⟨xs, hxs, htexts⟩ : ∃ xs, (Desks.start .backlog ['a', 'b']).course? twoTurns = some xs ∧
      (xs.map fun x => ((x .initiator).text, (x .receiver).text)).getLast? =
        some (['z', 'b', 'y'], ['z', 'b', 'y']) := ⟨_, rfl, rfl⟩
  obtain ⟨ys, hys, hagree⟩ := turns_need_no_transformation hxs
  exact ⟨xs, ys, hxs, hys, hagree, htexts⟩

end PairEdit.Alternation
