import Mathlib.Algebra.Order.BigOperators.Group.List
import Mathlib.Algebra.Order.Group.Nat
import Mathlib.Algebra.Ring.Nat
import PairEdit.Proofs.Replica
import PairEdit.Session.Phase

/-!
# Room for what arrives

Positions, lengths and counters are words, so taking in an edit of the peer could fail on a
number.  It does not, whatever the peer sends, while the edits that a session keeps are small
enough, taken together with the characters that are still to be inserted.  How far an edit
reaches says more here than the text it fits: the peer may acknowledge what it likes.
-/

namespace PairEdit

namespace Edit

section Transform

variable {a b f : Edit} (p : Priority)

/-- No sum and no difference leaves the words when the end of the transformed edit does not. -/
theorem exists_transform? (ha : a.pos + a.del ≤ Word.max)
    (hb : b.pos + b.del + a.ins.length ≤ Word.max) : ∃ f, b.transform? a p = some f := by
  have hsa := stop_of_le ha
  have hsb : b.stop = b.pos + b.del := stop_of_le (by omega)
  unfold transform?
  dsimp only
  split
  · cases p with
    | localFirst => exact ⟨_, by rw [Word.add?_of_le (by omega)]; rfl⟩
    | remoteFirst => exact ⟨_, rfl⟩
  · split
    · rw [Word.sub?_of_le (by omega)]
      dsimp only [bind, Option.bind]
      exact ⟨_, by rw [Word.add?_of_le (by omega)]; rfl⟩
    · split
      · exact ⟨_, rfl⟩
      · split
        · exact ⟨_, by rw [Word.add?_of_le (by omega)]; rfl⟩
        · split
          · rw [Word.sub?_of_le (by omega)]
            dsimp only [bind, Option.bind]
            exact ⟨_, by rw [Word.add?_of_le (by omega)]; rfl⟩
          · split
            · exact ⟨_, by rw [Word.add?_of_le (by omega), Word.sub?_of_le (by omega)]; rfl⟩
            · exact ⟨_, by rw [Word.sub?_of_le (by omega)]; rfl⟩

/-- An edit reaches no farther than by what the other one inserts. -/
theorem reach_transform_le (ha : a.pos + a.del ≤ Word.max) (hb : b.pos + b.del ≤ Word.max) :
    (b.transform a p).pos + (b.transform a p).del ≤ b.pos + b.del + a.ins.length := by
  have hsa := stop_of_le ha
  have hsb := stop_of_le hb
  unfold transform
  cases p <;> grind

/-- An edit removes more than before only where the other one is inserted in what it removes, and
then that one is not inserted any more. -/
theorem del_transform_add_le (ha : a.pos + a.del ≤ Word.max) (hb : b.pos + b.del ≤ Word.max) :
    (a.transform b p.opposite).del + (b.transform a p).ins.length ≤ a.del + b.ins.length := by
  have hsa := stop_of_le ha
  have hsb := stop_of_le hb
  unfold transform
  cases p <;> simp only [Priority.opposite] <;> grind

end Transform

/-! ## The edits of a session -/

/-- How many characters the edits insert. -/
def insertedBy (edits : List Edit) : Nat := (edits.map fun e => e.ins.length).sum

/-- How many characters the edits remove. -/
def removedBy (edits : List Edit) : Nat := (edits.map Edit.del).sum

/-- Edits can be carried past others that insert so many characters altogether. -/
structure HasRoom (chars : Nat) (edits : List Edit) : Prop where
  inserted_le : insertedBy edits ≤ Word.maxSigned
  removed_le : removedBy edits + chars ≤ Word.maxSigned
  reach_le : ∀ e ∈ edits, e.pos + e.del + chars ≤ Word.maxSigned

instance (chars : Nat) (edits : List Edit) : Decidable (HasRoom chars edits) :=
  decidable_of_iff (insertedBy edits ≤ Word.maxSigned ∧
      removedBy edits + chars ≤ Word.maxSigned ∧
      ∀ e ∈ edits, e.pos + e.del + chars ≤ Word.maxSigned)
    ⟨fun h => ⟨h.1, h.2.1, h.2.2⟩, fun h => ⟨h.1, h.2, h.3⟩⟩

theorem insertedBy_cons (e : Edit) (edits : List Edit) :
    insertedBy (e :: edits) = e.ins.length + insertedBy edits := List.sum_cons

theorem removedBy_cons (e : Edit) (edits : List Edit) :
    removedBy (e :: edits) = e.del + removedBy edits := List.sum_cons

theorem insertedBy_drop_le (n : Nat) (edits : List Edit) :
    insertedBy (edits.drop n) ≤ insertedBy edits :=
  ((List.drop_sublist n edits).map _).sum_le_sum fun _ _ => Nat.zero_le _

theorem removedBy_drop_le (n : Nat) (edits : List Edit) :
    removedBy (edits.drop n) ≤ removedBy edits :=
  ((List.drop_sublist n edits).map _).sum_le_sum fun _ _ => Nat.zero_le _

namespace HasRoom

variable {chars : Nat} {edits : List Edit}

theorem mono {chars' : Nat} (h : HasRoom chars edits) (hle : chars' ≤ chars) :
    HasRoom chars' edits where
  inserted_le := h.inserted_le
  removed_le := Nat.le_trans (Nat.add_le_add_left hle _) h.removed_le
  reach_le e he := Nat.le_trans (Nat.add_le_add_left hle _) (h.reach_le e he)

theorem drop (h : HasRoom chars edits) (n : Nat) : HasRoom chars (edits.drop n) where
  inserted_le := Nat.le_trans (insertedBy_drop_le n edits) h.inserted_le
  removed_le := Nat.le_trans (Nat.add_le_add_right (removedBy_drop_le n edits) _) h.removed_le
  reach_le e he := h.reach_le e (List.mem_of_mem_drop he)

end HasRoom

end Edit

namespace Backlog

open Edit

/-- The partial sums stay between what is removed and what is inserted. -/
theorem exists_sumDeltas? {edits : List Edit} {inserted removed : Nat}
    (hinserted : inserted + insertedBy edits ≤ Word.maxSigned)
    (hremoved : removed + removedBy edits ≤ Word.maxSigned) :
    ∃ total, sumDeltas? ((inserted : Int) - removed) edits = some total := by
  induction edits generalizing inserted removed with
  | nil => exact ⟨_, rfl⟩
  | cons e rest ih =>
      rw [insertedBy_cons] at hinserted
      rw [removedBy_cons] at hremoved
      have hdelta : e.lenDelta? = some ((e.ins.length : Int) - e.del) := by
        rw [lenDelta?, Word.signed_of_le (by omega), Word.signed_of_le (by omega)]
        exact Word.fitSigned?_sub (by omega) (by omega)
      have hsum : ((inserted : Int) - removed) + ((e.ins.length : Int) - e.del) =
          ((inserted + e.ins.length : Nat) : Int) - ((removed + e.del : Nat) : Int) := by
        omega
      have hfit := Word.fitSigned?_sub (m := inserted + e.ins.length) (n := removed + e.del)
        (by omega) (by omega)
      rw [← hsum] at hfit
      rw [sumDeltas?_cons hdelta hfit, hsum]
      exact ih (by omega) (by omega)

/-- An edit is carried past others without an overflow.  They reach farther by what it inserts at
most, and remove more only by what it then does not insert any more. -/
theorem exists_pass?_of_reach (priority : Priority) {remote : Edit} {edits : List Edit}
    {chars : Nat} (hremote : remote.pos + remote.del + insertedBy edits ≤ Word.max)
    (hreach : ∀ e ∈ edits, e.pos + e.del + (chars + remote.ins.length) ≤ Word.maxSigned) :
    ∃ final edits', pass? priority remote edits = some (final, edits') ∧
      insertedBy edits' ≤ insertedBy edits ∧
      removedBy edits' ≤ removedBy edits + remote.ins.length ∧
      ∀ e ∈ edits', e.pos + e.del + chars ≤ Word.maxSigned := by
  induction edits generalizing remote with
  | nil => exact ⟨remote, [], rfl, Nat.le_refl _, Nat.le_add_right .., nofun⟩
  | cons own rest ih =>
      rw [insertedBy_cons] at hremote
      have hown := hreach own List.mem_cons_self
      have hwords : Word.maxSigned ≤ Word.max := by decide
      have hremote' : remote.pos + remote.del ≤ Word.max := by omega
      have hown' : own.pos + own.del ≤ Word.max := by omega
      obtain ⟨adjusted, hadjusted⟩ : ∃ f, remote.transform? own priority = some f :=
        exists_transform? priority hown' (by omega)
      obtain ⟨later, hlater⟩ : ∃ f, own.transform? remote priority.opposite = some f :=
        exists_transform? priority.opposite hremote' (by omega)
      obtain rfl := eq_of_transform? _ hadjusted
      obtain rfl := eq_of_transform? _ hlater
      have hins := length_ins_transform_le priority (a := own) (b := remote)
      have hfarther := reach_transform_le priority hown' hremote'
      have hreach' : ∀ e ∈ rest,
          e.pos + e.del + (chars + (remote.transform own priority).ins.length) ≤
            Word.maxSigned := fun e he =>
        Nat.le_trans (by omega) (hreach e (List.mem_cons_of_mem _ he))
      obtain ⟨final, rest', hpass, hinserted, hremoved, hrest⟩ := ih (by omega) hreach'
      refine ⟨final, own.transform remote priority.opposite :: rest', ?_, ?_, ?_, ?_⟩
      · simp only [pass?, hadjusted, hlater, hpass, bind, Option.bind]
        rfl
      · have hshorter := length_ins_transform_le priority.opposite (a := remote) (b := own)
        rw [insertedBy_cons, insertedBy_cons]
        omega
      · have hdel := del_transform_add_le priority hown' hremote'
        rw [removedBy_cons, removedBy_cons]
        omega
      · intro e he
        obtain rfl | he := List.mem_cons.1 he
        · have hfarther := reach_transform_le priority.opposite hremote' hown'
          omega
        · exact hrest e he

theorem exists_pass?_of_hasRoom (priority : Priority) {remote : Edit} {edits : List Edit}
    {chars : Nat} (h : HasRoom (chars + remote.ins.length) edits)
    (hremote : remote.pos + remote.del ≤ Word.maxSigned) :
    ∃ final edits', pass? priority remote edits = some (final, edits') ∧ HasRoom chars edits' := by
  have hinserted := h.inserted_le
  have hremoved := h.removed_le
  have hwords : Word.maxSigned + Word.maxSigned ≤ Word.max := by decide
  obtain ⟨final, edits', hpass, hinserted', hremoved', hreach⟩ :=
    exists_pass?_of_reach priority (by omega) h.reach_le
  exact ⟨final, edits', hpass, by omega, by omega, hreach⟩

/-- A backlog has room for so many more edits of the peer, which insert so many characters. -/
structure HasRoom (arrivals chars : Nat) (b : Backlog) : Prop where
  received_le : b.received + arrivals ≤ Word.max
  outstanding : Edit.HasRoom chars b.outstanding

instance (arrivals chars : Nat) (b : Backlog) : Decidable (b.HasRoom arrivals chars) :=
  decidable_of_iff (b.received + arrivals ≤ Word.max ∧ Edit.HasRoom chars b.outstanding)
    ⟨fun h => ⟨h.1, h.2⟩, fun h => ⟨h.1, h.2⟩⟩

namespace HasRoom

variable {b : Backlog} {arrivals chars : Nat}

theorem exists_check? (h : b.HasRoom arrivals chars) (u : Update) (len : Nat) :
    ∃ result, b.check? u len = some result ∧
      (result = .ok () → u.edit.pos + u.edit.del ≤ Word.maxSigned) := by
  have hunseen : Edit.HasRoom chars (b.unseen u.seen) := h.outstanding.drop _
  have hinserted := hunseen.inserted_le
  have hremoved := hunseen.removed_le
  have hsum : ∃ delta, sumDeltas? ((0 : Nat) - (0 : Nat)) (b.unseen u.seen) = some delta :=
    exists_sumDeltas? (by omega) (by omega)
  obtain ⟨delta, hdelta⟩ := hsum
  have hcheck : b.check? u len =
      some (baseLength len delta >>= fun base => u.edit.checkBounds base) := by
    rw [Int.sub_self] at hdelta
    simp only [check?, hdelta, bind, Option.bind]
    rfl
  refine ⟨_, hcheck, fun hok => ?_⟩
  unfold baseLength at hok
  dsimp only at hok
  split at hok
  · next hbase =>
      obtain ⟨-, hfits⟩ := checkBounds_eq_ok_iff.1 hok
      omega
  · cases hok

theorem exists_receive? {u : Update} (h : b.HasRoom (arrivals + 1) (chars + u.edit.ins.length))
    (hreach : u.edit.pos + u.edit.del ≤ Word.maxSigned) :
    ∃ e b', b.receive? u = some (e, b') ∧ b'.HasRoom arrivals chars := by
  have hreceived := h.received_le
  have hunseen : Edit.HasRoom (chars + u.edit.ins.length) (b.unseen u.seen) :=
    h.outstanding.drop _
  obtain ⟨e, edits, hpass, hedits⟩ := exists_pass?_of_hasRoom b.priority hunseen hreach
  refine ⟨e, _, receive?_eq_some_iff.2 ⟨by omega, edits, hpass, rfl⟩, ?_, hedits⟩
  dsimp only
  omega

end HasRoom

end Backlog

/-! ## The phases of a party -/

/-- A strategy has room for so many more edits of the peer, which insert so many characters. -/
def Strategy.HasRoom (arrivals chars : Nat) : Strategy → Prop
  | .backlog b => b.HasRoom arrivals chars
  | .plain => arrivals ≤ Word.max

namespace Session

/-- A party has room for so many more arrivals, which insert so many characters altogether. -/
def Phase.HasRoom (arrivals chars : Nat) : Phase → Prop
  | .idle => arrivals ≤ Word.max
  | .offered o => o.buffered + arrivals ≤ Word.max
  | .live l => l.strategy.HasRoom arrivals chars

end Session

instance (arrivals chars : Nat) : (s : Strategy) → Decidable (s.HasRoom arrivals chars)
  | .backlog b => inferInstanceAs (Decidable (b.HasRoom arrivals chars))
  | .plain => inferInstanceAs (Decidable (arrivals ≤ Word.max))

instance (arrivals chars : Nat) :
    (phase : Session.Phase) → Decidable (phase.HasRoom arrivals chars)
  | .idle => inferInstanceAs (Decidable (arrivals ≤ Word.max))
  | .offered o => inferInstanceAs (Decidable (o.buffered + arrivals ≤ Word.max))
  | .live l => inferInstanceAs (Decidable (l.strategy.HasRoom arrivals chars))

variable {arrivals chars : Nat}

namespace Strategy.HasRoom

variable {s : Strategy}

theorem mono {arrivals' chars' : Nat} (h : s.HasRoom arrivals chars) (ha : arrivals' ≤ arrivals)
    (hc : chars' ≤ chars) : s.HasRoom arrivals' chars' := by
  cases s with
  | backlog b => exact ⟨Nat.le_trans (Nat.add_le_add_left ha _) h.1, h.2.mono hc⟩
  | plain => exact Nat.le_trans ha h

theorem arrivals_le (h : s.HasRoom arrivals chars) : arrivals ≤ Word.max := by
  cases s with
  | backlog b => exact Nat.le_trans (Nat.le_add_left ..) h.received_le
  | plain => exact h

/-- Taking in an edit of the peer that passed the check, no number leaves the words. -/
theorem exists_receive? {u : Update} {len : Nat}
    (h : s.HasRoom (arrivals + 1) (chars + u.edit.ins.length))
    (hcheck : s.check? u len = some (.ok ())) :
    ∃ e s', s.receive? u = some (e, s') ∧ s'.HasRoom arrivals chars := by
  cases s with
  | plain => exact ⟨u.edit, .plain, rfl, Nat.le_of_succ_le h⟩
  | backlog b =>
      obtain ⟨result, hresult, hreach⟩ := Backlog.HasRoom.exists_check? h u len
      cases hresult.symm.trans hcheck
      obtain ⟨e, b', hreceive, hb'⟩ := Backlog.HasRoom.exists_receive? h (hreach rfl)
      exact ⟨e, .backlog b', by simp only [receive?, hreceive]; rfl, hb'⟩

theorem exists_check? (h : s.HasRoom arrivals chars) (u : Update) (len : Nat) :
    ∃ result, s.check? u len = some result := by
  cases s with
  | plain => exact ⟨_, rfl⟩
  | backlog b =>
      obtain ⟨result, hresult, -⟩ := Backlog.HasRoom.exists_check? h u len
      exact ⟨result, hresult⟩

end Strategy.HasRoom

namespace Session

/-- A session takes in what the peer sends, or gives a reason not to. -/
theorem Live.exists_admit? {l : Live} {u : Update}
    (h : l.strategy.HasRoom (arrivals + 1) (chars + u.edit.ins.length)) (len : Nat) :
    ∃ result s, l.admit? u len = some (result, { l with strategy := s }) ∧
      s.HasRoom arrivals chars := by
  obtain ⟨result, hcheck⟩ := h.exists_check? u len
  cases result with
  | error reason =>
      refine ⟨.error reason, l.strategy, ?_, h.mono (Nat.le_succ _) (Nat.le_add_right ..)⟩
      simp only [admit?, hcheck, bind, Option.bind]
      rfl
  | ok =>
      obtain ⟨e, s, hreceive, hs⟩ := h.exists_receive? hcheck
      simp only [admit?, hcheck, hreceive, bind, Option.bind]
      cases e.checkBounds len with
      | error reason => exact ⟨_, s, rfl, hs⟩
      | ok => exact ⟨_, s, rfl, hs⟩

theorem Offered.exists_absorb? {o : Offered} (h : o.buffered + 1 ≤ Word.max) (limits : Limits)
    (e : Edit) :
    ∃ result o', o.absorb? limits e = some (result, o') ∧ o'.buffered ≤ o.buffered + 1 := by
  unfold absorb?
  cases e.apply o.buffer with
  | error reason => exact ⟨_, o, rfl, Nat.le_succ _⟩
  | ok text =>
      simp only [Word.fit?_of_le h, bind, Option.bind]
      split <;> exact ⟨_, _, rfl, Nat.le_refl _⟩

namespace Phase.HasRoom

variable {phase : Phase}

theorem mono {arrivals' chars' : Nat} (h : phase.HasRoom arrivals chars)
    (ha : arrivals' ≤ arrivals) (hc : chars' ≤ chars) : phase.HasRoom arrivals' chars' := by
  cases phase with
  | idle => exact Nat.le_trans ha h
  | offered o => exact Nat.le_trans (Nat.add_le_add_left ha _) h
  | live l => exact Strategy.HasRoom.mono h ha hc

theorem arrivals_le (h : phase.HasRoom arrivals chars) : arrivals ≤ Word.max := by
  cases phase with
  | idle => exact h
  | offered o => exact Nat.le_trans (Nat.le_add_left ..) h
  | live l => exact Strategy.HasRoom.arrivals_le h

/-- A party makes something of every update, and has room for the others. -/
theorem exists_receive? {u : Update} (h : phase.HasRoom (arrivals + 1) (chars + u.edit.ins.length))
    (limits : Limits) (sender : PeerId) (len : Nat) :
    ∃ incoming phase', phase.receive? limits sender u len = some (incoming, phase') ∧
      phase'.HasRoom arrivals chars := by
  have hsame := h.mono (Nat.le_succ arrivals) (Nat.le_add_right chars u.edit.ins.length)
  cases phase with
  | idle => exact ⟨.ignored, .idle, rfl, hsame⟩
  | offered o =>
      by_cases hsender : o.participants.initiator = sender
      · have hcount : o.buffered + (arrivals + 1) ≤ Word.max := h
        obtain ⟨result, o', habsorb, hbuffered⟩ :=
          Offered.exists_absorb? (o := o) (by omega) limits u.edit
        have hroom : (Phase.offered o').HasRoom arrivals chars := by
          unfold HasRoom
          omega
        simp only [receive?, if_neg (not_not_intro hsender), habsorb, bind, Option.bind]
        cases result with
        | error reason => exact ⟨_, _, rfl, hroom⟩
        | ok => exact ⟨_, _, rfl, hroom⟩
      · exact ⟨.outsider, .offered o, if_pos hsender, hsame⟩
  | live l =>
      by_cases hsender : l.participants.other = sender
      · obtain ⟨result, s, hadmit, hs⟩ := Live.exists_admit? h len
        simp only [receive?, if_neg (not_not_intro hsender), hadmit, bind, Option.bind]
        cases result with
        | error reason => exact ⟨_, _, rfl, hs⟩
        | ok e => exact ⟨_, _, rfl, hs⟩
      · exact ⟨.outsider, .live l, if_pos hsender, hsame⟩

end Phase.HasRoom

end Session

end PairEdit
