import PairEdit.Proofs.Replay
import PairEdit.Session.Phase

/-!
# One side against an arbitrary peer

A replica is one side of a session: its backlog and its text.  Whatever the peer
sends, the outstanding edits lead from some text to the local one.  That base text
moves with every update taken in: the edits it acknowledges are carried out on it,
then the update's own edit.  So an update that passes the check by lengths can be
taken in, and what it is transformed into fits the local text.
-/

namespace PairEdit

open Edit

namespace Backlog

/-! ## Acknowledgements -/

/-- The outstanding edits that an acknowledgement of `seen` edits covers. -/
def retired (b : Backlog) (seen : Nat) : List Edit :=
  b.outstanding.take (min seen b.sent - b.acknowledged)

theorem retired_append_unseen (b : Backlog) (seen : Nat) :
    b.retired seen ++ b.unseen seen = b.outstanding :=
  List.take_append_drop _ _

/-- The check and the transformation look at the same edits. -/
theorem outstanding_retire (b : Backlog) (seen : Nat) :
    (b.retire seen).outstanding = b.unseen seen := by
  unfold retire unseen
  dsimp only
  split
  · rfl
  · next h => rw [Nat.sub_eq_zero_of_le (Nat.le_of_not_lt h), List.drop_zero]

@[simp]
theorem sent_retire (b : Backlog) (seen : Nat) : (b.retire seen).sent = b.sent := by
  unfold retire
  dsimp only
  split <;> rfl

@[simp]
theorem received_retire (b : Backlog) (seen : Nat) : (b.retire seen).received = b.received := by
  unfold retire
  dsimp only
  split <;> rfl

@[simp]
theorem priority_retire (b : Backlog) (seen : Nat) : (b.retire seen).priority = b.priority := by
  unfold retire
  dsimp only
  split <;> rfl

theorem acknowledged_retire (b : Backlog) (seen : Nat) :
    (b.retire seen).acknowledged = max b.acknowledged (min seen b.sent) := by
  unfold retire
  dsimp only
  split
  · dsimp only
    omega
  · omega

/-! ## Spec lemmas of the three operations -/

theorem register?_eq_some_iff {b b' : Backlog} {e : Edit} {u : Update} :
    b.register? e = some (u, b') ↔ b.sent + 1 ≤ Word.max ∧ u = ⟨e, b.sent + 1, b.received⟩ ∧
      b' = { b with outstanding := b.outstanding ++ [e], sent := b.sent + 1 } := by
  by_cases h : b.sent + 1 ≤ Word.max
  · simp [register?, Word.fit?, h, eq_comm]
  · simp [register?, Word.fit?, h]

theorem skip?_eq_some_iff {b b' : Backlog} {n : Nat} :
    b.skip? n = some b' ↔
      b.received + n ≤ Word.max ∧ b' = { b with received := b.received + n } := by
  by_cases h : b.received + n ≤ Word.max
  · simp [skip?, Word.fit?, h, eq_comm]
  · simp [skip?, Word.fit?, h]

theorem receive?_eq_some_iff {b b' : Backlog} {u : Update} {e : Edit} :
    b.receive? u = some (e, b') ↔ b.received + 1 ≤ Word.max ∧
      ∃ edits, pass? b.priority u.edit (b.unseen u.seen) = some (e, edits) ∧
        b' = { b.retire u.seen with outstanding := edits, received := b.received + 1 } := by
  by_cases h : b.received + 1 ≤ Word.max
  · simp only [receive?, received_retire, priority_retire, outstanding_retire, Word.fit?, h,
      if_true, bind, Option.bind, true_and]
    cases hpass : pass? b.priority u.edit (b.unseen u.seen) with
    | none => simp
    | some r =>
        obtain ⟨adjusted, edits⟩ := r
        simp only [Option.some.injEq, Prod.mk.injEq, pure, eq_comm, sent_retire]
        grind
  · simp [receive?, Word.fit?, h]

/-- An update that passes the check is taken in without an overflow.  The result
fits the local text, and the base text moves past what was acknowledged and past
the update. -/
theorem exists_receive? {b : Backlog} {u : Update} {base text : Text}
    (hbase : applyAll b.outstanding base = .ok text) (hroomy : Roomy text.length b.outstanding)
    (hins : u.edit.ins.length ≤ Word.maxSigned)
    (hcheck : b.check? u text.length = some (.ok ())) (hcount : b.received < Word.max) :
    ∃ e b' text' known base',
      applyAll (b.retired u.seen) base = .ok known ∧ u.edit.apply known = .ok base' ∧
      b.receive? u = some (e, b') ∧ e.apply text = .ok text' ∧
      applyAll b'.outstanding base' = .ok text' := by
  rw [← retired_append_unseen b u.seen] at hbase hroomy
  obtain ⟨known, hretired, hunseen⟩ := applyAll_append_eq_ok_iff.1 hbase
  have hrest := hroomy.of_append
  rw [check?_eq_some hunseen hrest, Option.some.injEq] at hcheck
  have hu := apply_eq_ok_of_checkBounds hcheck
  obtain ⟨e, edits, text', hpass, htext', hbase', -⟩ :=
    exists_pass? b.priority hu hunseen hrest hins
  exact ⟨e, _, text', known, _, hretired, hu,
    receive?_eq_some_iff.2 ⟨hcount, edits, hpass, rfl⟩, htext', hbase'⟩

end Backlog

/-- One side of a session: what it remembers, and its text. -/
structure Replica where
  backlog : Backlog
  text : Text

namespace Replica

/-- The outstanding edits lead from `base` to the local text. -/
def Anchored (r : Replica) (base : Text) : Prop :=
  applyAll r.backlog.outstanding base = .ok r.text

/-- Neither the local text nor a text that an outstanding edit applies to is too long
for a signed word.  The local text alone says too little: what the peer inserts inside
an outstanding deletion makes the deletion longer, while the local text stays as it is. -/
def Roomy (r : Replica) : Prop := Edit.Roomy r.text.length r.backlog.outstanding

instance (r : Replica) : Decidable r.Roomy :=
  inferInstanceAs (Decidable (Edit.Roomy r.text.length r.backlog.outstanding))

/-- What may happen to a replica.  The peer may send anything at all; it is taken in
when the check passes. -/
inductive Step : Replica → Replica → Prop
  | edit {b b' : Backlog} {text text' : Text} {e : Edit} {u : Update} :
      e.apply text = .ok text' → b.register? e = some (u, b') → Step ⟨b, text⟩ ⟨b', text'⟩
  | skip {b b' : Backlog} {text : Text} {n : Nat} :
      b.skip? n = some b' → Step ⟨b, text⟩ ⟨b', text⟩
  | receive {b b' : Backlog} {text text' : Text} {u : Update} {e : Edit} :
      u.edit.ins.length ≤ Word.maxSigned → b.check? u text.length = some (.ok ()) →
      b.receive? u = some (e, b') → e.apply text = .ok text' → Step ⟨b, text⟩ ⟨b', text'⟩

/-- What a replica may come to without a text becoming too long. -/
inductive Reachable (role : Role) (text : Text) : Replica → Prop
  | start : Roomy ⟨.start role, text⟩ → Reachable role text ⟨.start role, text⟩
  | step {r r' : Replica} : Reachable role text r → Step r r' → r'.Roomy → Reachable role text r'

theorem Reachable.roomy {role : Role} {text : Text} {r : Replica}
    (h : Reachable role text r) : r.Roomy := by
  cases h with
  | start hroomy => exact hroomy
  | step _ _ hroomy => exact hroomy

theorem Step.exists_anchored {r r' : Replica} {base : Text} (h : Step r r')
    (hbase : r.Anchored base) (hroomy : r.Roomy) : ∃ base', r'.Anchored base' := by
  cases h with
  | edit happly hregister =>
      obtain ⟨-, -, rfl⟩ := Backlog.register?_eq_some_iff.1 hregister
      exact ⟨base, applyAll_append_eq_ok_iff.2 ⟨_, hbase, by rwa [applyAll_singleton]⟩⟩
  | skip hskip =>
      obtain ⟨-, rfl⟩ := Backlog.skip?_eq_some_iff.1 hskip
      exact ⟨base, hbase⟩
  | receive hins hcheck hreceive happly =>
      have hcount := (Backlog.receive?_eq_some_iff.1 hreceive).1
      obtain ⟨e, b', text', known, base', -, -, hreceive', happly', hbase'⟩ :=
        Backlog.exists_receive? hbase hroomy hins hcheck hcount
      rw [hreceive] at hreceive'
      cases hreceive'
      rw [happly] at happly'
      cases happly'
      exact ⟨base', hbase'⟩

theorem Reachable.exists_anchored {role : Role} {text : Text} {r : Replica}
    (h : Reachable role text r) : ∃ base, r.Anchored base := by
  induction h with
  | start _ => exact ⟨text, rfl⟩
  | step hr hstep _ ih =>
      obtain ⟨base, hbase⟩ := ih
      exact hstep.exists_anchored hbase hr.roomy

/-- What a live session does with an update that is taken in. -/
theorem admit?_of_receive? {r : Replica} {u : Update} {e : Edit} {b' : Backlog}
    {l : Session.Live} (hl : l.strategy = .backlog r.backlog)
    (hcheck : r.backlog.check? u r.text.length = some (.ok ()))
    (hreceive : r.backlog.receive? u = some (e, b'))
    (hbounds : e.checkBounds r.text.length = .ok ()) :
    l.admit? u r.text.length = some (.ok e, { l with strategy := .backlog b' }) := by
  simp only [Session.Live.admit?, hl, Strategy.check?, hcheck, Strategy.receive?, hreceive,
    Option.map, bind, Option.bind, hbounds]
  rfl

/-- In every state that a replica reaches, some base text is behind it.  Whatever
update arrives then, checking it overflows nowhere.  When the check passes, no step
of the transformation overflows, the session's second check passes too, the edit fits
the local text, and each base text moves past the retired edits and the update. -/
theorem safe_against_any_peer {role : Role} {text : Text} {r : Replica}
    (h : Reachable role text r) :
    (∃ base, r.Anchored base) ∧
    ∀ u : Update, u.edit.ins.length ≤ Word.maxSigned →
      ∃ verdict, r.backlog.check? u r.text.length = some verdict ∧
        (verdict = .ok () → r.backlog.received < Word.max →
          ∃ e b' text', r.backlog.receive? u = some (e, b') ∧
            e.checkBounds r.text.length = .ok () ∧ e.apply r.text = .ok text' ∧
            (∀ l : Session.Live, l.strategy = .backlog r.backlog →
              l.admit? u r.text.length = some (.ok e, { l with strategy := .backlog b' })) ∧
            ∀ base, r.Anchored base →
              ∃ known base', applyAll (r.backlog.retired u.seen) base = .ok known ∧
                u.edit.apply known = .ok base' ∧ Anchored ⟨b', text'⟩ base') := by
  have hroomy := h.roomy
  obtain ⟨base₀, hbase₀⟩ := h.exists_anchored
  refine ⟨⟨base₀, hbase₀⟩, ?_⟩
  intro u hins
  have hsplit := hbase₀
  have hrest := hroomy
  unfold Anchored at hsplit
  unfold Roomy at hrest
  rw [← Backlog.retired_append_unseen r.backlog u.seen] at hsplit hrest
  obtain ⟨known₀, -, hunseen⟩ := applyAll_append_eq_ok_iff.1 hsplit
  have hcheck := Backlog.check?_eq_some hunseen hrest.of_append
  refine ⟨_, hcheck, ?_⟩
  intro hok hcount
  rw [hok] at hcheck
  obtain ⟨e, b', text', -, -, -, -, hreceive, happly, -⟩ :=
    Backlog.exists_receive? hbase₀ hroomy hins hcheck hcount
  have hbounds := checkBounds_of_apply happly
  refine ⟨e, b', text', hreceive, hbounds, happly, ?_, ?_⟩
  · intro l hl
    exact admit?_of_receive? hl hcheck hreceive hbounds
  · intro base hbase
    obtain ⟨e', b'', text'', known, base', hretired, hu, hreceive', happly', hbase'⟩ :=
      Backlog.exists_receive? hbase hroomy hins hcheck hcount
    rw [hreceive] at hreceive'
    cases hreceive'
    rw [happly] at happly'
    cases happly'
    exact ⟨known, base', hretired, hu, hbase'⟩

/-- An initiator that has replaced a word, and a peer that has not seen it and claims to
have seen more. -/
theorem safe_against_any_peer_replacement :
    let b : Backlog := ⟨[⟨0, 2, ['X']⟩], 1, 0, 0, .localFirst⟩
    let r : Replica := ⟨b, ['X', 'c']⟩
    let u : Update := ⟨⟨1, 1, ['Y']⟩, 5, 9⟩
    Reachable .initiator ['a', 'b', 'c'] r ∧
      ∃ e b' text', b.receive? u = some (e, b') ∧ e.apply ['X', 'c'] = .ok text' ∧
        ∀ base, r.Anchored base →
          ∃ known base', applyAll (b.retired u.seen) base = .ok known ∧
            u.edit.apply known = .ok base' ∧ Anchored ⟨b', text'⟩ base' := by
  intro b r u
  have hstart : Roomy ⟨.start .initiator, ['a', 'b', 'c']⟩ := by
    decide
  have hroomy : r.Roomy := by
    simp [r, b, Roomy, Edit.Roomy, lengthBefore, Word.maxSigned]
  have hreach : Reachable .initiator ['a', 'b', 'c'] r :=
    .step (.start hstart) (.edit (e := ⟨0, 2, ['X']⟩) rfl rfl) hroomy
  obtain ⟨-, hall⟩ := safe_against_any_peer hreach
  obtain ⟨verdict, hcheck, hnext⟩ := hall u (by decide)
  obtain ⟨e, b', text', hreceive, -, happly, -, hbase⟩ := hnext (by cases hcheck; rfl) (by decide)
  exact ⟨hreach, e, b', text', hreceive, happly, hbase⟩

end Replica

end PairEdit
