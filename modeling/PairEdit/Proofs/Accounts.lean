import PairEdit.Proofs.Joining
import PairEdit.Proofs.Ledger
import PairEdit.Proofs.Retirement

/-!
# What a party knows of the edits of its peer

Each party counts the edits of its peer that it has applied, and says with each of its own
edits how many that were.  An `Account` holds the counts of a party together with what they
are about: which edits of the peer it has applied, which of its own have reached the peer's
queue, and the updates that it is still to hear.  Edits are numbered as they are registered;
some of them are never sent, so the numbers of those that are may have gaps.

The one thing that carries all the rest is that the peer has applied, and is still to hear,
exactly what was sent to it, in that order.
-/

namespace PairEdit.Session

/-- What a party counts, and what it is about. -/
structure Account where
  /-- Whether the party is in a session, or its offer is on the way. -/
  isOpen : Bool
  backlog : Backlog
  /-- The numbers of the edits of the peer that the party has applied. -/
  applied : List Nat
  /-- The numbers of its own edits that it has sent and the peer can read. -/
  posted : List Nat
  /-- The updates on the way to it. -/
  heard : List (Update × Postmark)

namespace Account

/-- The numbers of the updates on the way to a party. -/
def coming (a : Account) : List Nat := a.heard.map fun x => x.1.sent

/-- What the updates on the way acknowledge, after what was acknowledged before. -/
def acknowledgements (a : Account) : List Nat :=
  a.backlog.acknowledged :: a.heard.map fun x => x.1.seen

/-- The account of a party by itself. -/
structure Balanced (a : Account) : Prop where
  /-- Every edit is acknowledged or outstanding. -/
  sent_eq : a.backlog.sent = a.backlog.acknowledged + a.backlog.outstanding.length
  received_eq : a.backlog.received = a.applied.length
  posted_lt : a.posted.Pairwise (· < ·)
  posted_le : ∀ x ∈ a.posted, 1 ≤ x ∧ x ≤ a.backlog.sent
  /-- When the peer sent an update, it had applied as many of the edits sent to it as the
  update acknowledges. -/
  heard : ∀ x ∈ a.heard, x.1.seen ≤ a.posted.length ∧ x.2.applied = a.posted.take x.1.seen
  /-- Acknowledgements do not go back. -/
  acknowledgements : a.acknowledgements.Pairwise (· ≤ ·)

/-- The account of a party with what its peer has sent. -/
structure Meets (a peer : Account) : Prop where
  posted_eq : peer.posted = a.applied ++ a.coming
  le_received : ∀ x ∈ a.acknowledgements, x ≤ peer.backlog.received

/-- The accounts of two parties. -/
structure Settled (a peer : Account) : Prop where
  left : a.Balanced
  right : peer.Balanced
  meets : a.isOpen → peer.isOpen → a.Meets peer ∧ peer.Meets a

theorem Settled.symm {a peer : Account} (h : Settled a peer) : Settled peer a :=
  ⟨h.right, h.left, fun hpeer ha => (h.meets ha hpeer).symm⟩

/-! ## Accounts without entries -/

/-- The account of a party in no session, or in one where nothing has happened yet. -/
structure Blank (a : Account) : Prop where
  outstanding_eq : a.backlog.outstanding = []
  sent_eq : a.backlog.sent = 0
  acknowledged_eq : a.backlog.acknowledged = 0
  received_eq : a.backlog.received = 0
  applied_eq : a.applied = []
  posted_eq : a.posted = []
  heard_eq : a.heard = []

variable {a a' peer peer' : Account}

theorem Blank.balanced (h : a.Blank) : a.Balanced where
  sent_eq := by simp [h.sent_eq, h.acknowledged_eq, h.outstanding_eq]
  received_eq := by simp [h.received_eq, h.applied_eq]
  posted_lt := by simp [h.posted_eq]
  posted_le := by simp [h.posted_eq]
  heard := by simp [h.heard_eq]
  acknowledgements := by simp [Account.acknowledgements, h.heard_eq]

theorem Blank.meets (h : a.Blank) (hpeer : peer.Blank) : a.Meets peer where
  posted_eq := by simp [hpeer.posted_eq, h.applied_eq, coming, h.heard_eq]
  le_received := by simp [Account.acknowledgements, h.acknowledged_eq, h.heard_eq]

namespace Settled

/-- Both parties begin anew. -/
theorem of_blank (h : a.Blank) (hpeer : peer.Blank) : Settled a peer :=
  ⟨h.balanced, hpeer.balanced, fun _ _ => ⟨h.meets hpeer, hpeer.meets h⟩⟩

/-- A party closes its account. -/
theorem close (h : Settled a peer) (hblank : a'.Blank) (hclosed : a'.isOpen = false) :
    Settled a' peer :=
  ⟨hblank.balanced, h.right, fun hopen => absurd hopen (by simp [hclosed])⟩

/-- A party takes in the oldest update on the way to it. -/
theorem take (h : Settled a peer) {x : Update × Postmark} {rest : List (Update × Postmark)}
    (hheard : a.heard = x :: rest) (hopen : a'.isOpen = a.isOpen)
    (happlied : a'.applied = a.applied ++ [x.1.sent]) (hposted : a'.posted = a.posted)
    (hrest : a'.heard = rest) {e : Edit}
    (hreceive : a.backlog.receive? x.1 = some (e, a'.backlog)) : Settled a' peer := by
  obtain ⟨-, edits, -, hbacklog⟩ := Backlog.receive?_eq_some_iff.1 hreceive
  have hseen : x.1.seen ≤ a.posted.length ∧ x.2.applied = a.posted.take x.1.seen :=
    h.left.heard x (hheard ▸ List.mem_cons_self)
  have hsent : a'.backlog.sent = a.backlog.sent := by
    rw [hbacklog]
    exact Backlog.sent_retire ..
  have hacknowledged : a'.backlog.acknowledged =
      max a.backlog.acknowledged (min x.1.seen a.backlog.sent) := by
    rw [hbacklog]
    exact Backlog.acknowledged_retire ..
  have hordered := h.left.acknowledgements
  rw [acknowledgements, hheard, List.map_cons, List.pairwise_cons, List.pairwise_cons] at hordered
  obtain ⟨hold, hnew, hothers⟩ := hordered
  -- What is acknowledged now was acknowledged before, or is so by the update.
  have hle : ∀ y, a.backlog.acknowledged ≤ y → x.1.seen ≤ y → a'.backlog.acknowledged ≤ y := by
    intro y h₁ h₂
    omega
  refine ⟨⟨?_, ?_, ?_, ?_, ?_, ?_⟩, h.right, fun ha hpeer => ?_⟩
  · exact (Backlog.Step.receive hreceive).counted h.left.sent_eq
  · rw [happlied, List.length_append, ← h.left.received_eq, hbacklog]
    rfl
  · rw [hposted]
    exact h.left.posted_lt
  · rw [hposted, hsent]
    exact h.left.posted_le
  · rw [hposted, hrest]
    exact fun y hy => h.left.heard y (hheard ▸ List.mem_cons_of_mem _ hy)
  · rw [acknowledgements, hrest, List.pairwise_cons]
    refine ⟨fun y hy => hle y (hold y (List.mem_cons_of_mem _ hy)) (hnew y hy), hothers⟩
  · rw [hopen] at ha
    obtain ⟨hmeets, hpeer⟩ := h.meets ha hpeer
    refine ⟨⟨?_, ?_⟩, ⟨?_, ?_⟩⟩
    · rw [hmeets.posted_eq, happlied, coming, coming, hheard, hrest, List.append_assoc]
      rfl
    · have hreceived := hmeets.le_received
      rw [acknowledgements, hheard] at hreceived
      intro y hy
      rw [acknowledgements, hrest] at hy
      rcases List.mem_cons.1 hy with rfl | hy
      · exact hle _ (hreceived _ List.mem_cons_self)
          (hreceived _ (List.mem_cons_of_mem _ List.mem_cons_self))
      · exact hreceived y (List.mem_cons_of_mem _ (List.mem_cons_of_mem _ hy))
    · rw [hposted]
      exact hpeer.posted_eq
    · intro y hy
      refine Nat.le_trans (hpeer.le_received y hy) ?_
      rw [hbacklog]
      exact Nat.le_succ _

end Settled

/-! ## Sending edits -/

/-- Edits are registered, and some of them reach the queue of the peer. -/
structure Registers (b : Backlog) (applied : List Nat) (said : List (Update × Postmark))
    (b' : Backlog) : Prop where
  sent_le : b.sent ≤ b'.sent
  acknowledged_eq : b'.acknowledged = b.acknowledged
  received_eq : b'.received = b.received
  length_eq : b'.outstanding.length + b.sent = b.outstanding.length + b'.sent
  lt : (said.map fun x => x.1.sent).Pairwise (· < ·)
  between : ∀ x ∈ said, b.sent < x.1.sent ∧ x.1.sent ≤ b'.sent
  marked : ∀ x ∈ said, x.1.seen = b.received ∧ x.2.applied = applied

namespace Registers

variable {b b' b'' : Backlog} {applied : List Nat} {said said' : List (Update × Postmark)}

theorem refl (b : Backlog) (applied : List Nat) : Registers b applied [] b :=
  ⟨Nat.le_refl _, rfl, rfl, rfl, by simp, by simp, by simp⟩

theorem trans (h : Registers b applied said b') (h' : Registers b' applied said' b'') :
    Registers b applied (said ++ said') b'' where
  sent_le := Nat.le_trans h.sent_le h'.sent_le
  acknowledged_eq := h'.acknowledged_eq.trans h.acknowledged_eq
  received_eq := h'.received_eq.trans h.received_eq
  length_eq := by
    have h₁ := h.length_eq
    have h₂ := h'.length_eq
    omega
  lt := by
    rw [List.map_append, List.pairwise_append]
    refine ⟨h.lt, h'.lt, fun x hx y hy => ?_⟩
    obtain ⟨u, hu, rfl⟩ := List.mem_map.1 hx
    obtain ⟨v, hv, rfl⟩ := List.mem_map.1 hy
    exact Nat.lt_of_le_of_lt (h.between u hu).2 (h'.between v hv).1
  between := by
    intro x hx
    rcases List.mem_append.1 hx with hx | hx
    · exact ⟨(h.between x hx).1, Nat.le_trans (h.between x hx).2 h'.sent_le⟩
    · exact ⟨Nat.lt_of_le_of_lt h.sent_le (h'.between x hx).1, (h'.between x hx).2⟩
  marked := by
    intro x hx
    rcases List.mem_append.1 hx with hx | hx
    · exact h.marked x hx
    · rw [← h.received_eq]
      exact h'.marked x hx

/-- One edit is registered, and it reaches the queue of the peer or it does not. -/
theorem of_register? {e : Edit} {u : Update} (h : b.register? e = some (u, b'))
    (hsaid : said = [] ∨ ∃ mark : Postmark, mark.applied = applied ∧ said = [(u, mark)]) :
    Registers b applied said b' := by
  obtain ⟨-, rfl, rfl⟩ := Backlog.register?_eq_some_iff.1 h
  have hlength : (b.outstanding ++ [e]).length + b.sent = b.outstanding.length + (b.sent + 1) := by
    rw [List.length_append, List.length_singleton]
    omega
  rcases hsaid with rfl | ⟨mark, hmark, rfl⟩
  · exact ⟨Nat.le_succ _, rfl, rfl, hlength, by simp, by simp, by simp⟩
  · refine ⟨Nat.le_succ _, rfl, rfl, hlength, by simp, ?_, ?_⟩
    · intro x hx
      rw [List.mem_singleton.1 hx]
      exact ⟨Nat.lt_succ_self _, Nat.le_refl _⟩
    · intro x hx
      rw [List.mem_singleton.1 hx]
      exact ⟨rfl, hmark⟩

end Registers

/-- What a party is still to hear once the peer has said some more. -/
def hears (a : Account) (said : List (Update × Postmark)) : Account :=
  { a with heard := a.heard ++ if a.isOpen then said else [] }

@[simp]
theorem hears_nil (a : Account) : a.hears [] = a := by
  simp [hears]

section Saying

variable {said : List (Update × Postmark)} (happlied : a'.applied = a.applied)
variable (hposted : a'.posted = a.posted ++ said.map fun x => x.1.sent)
variable (hheard : a'.heard = a.heard)
variable (hregisters : Registers a.backlog a.applied said a'.backlog)

include hheard hregisters in
theorem Registers.acknowledgements_eq : a'.acknowledgements = a.acknowledgements := by
  rw [acknowledgements, acknowledgements, hregisters.acknowledged_eq, hheard]

include happlied hposted hheard hregisters in
/-- The account of a party that has sent some edits. -/
theorem Balanced.sends (h : a.Balanced) : a'.Balanced where
  sent_eq := by
    have hsent := h.sent_eq
    have hlength := hregisters.length_eq
    have hacknowledged := hregisters.acknowledged_eq
    omega
  received_eq := by
    rw [hregisters.received_eq, happlied]
    exact h.received_eq
  posted_lt := by
    rw [hposted, List.pairwise_append]
    refine ⟨h.posted_lt, hregisters.lt, fun x hx y hy => ?_⟩
    obtain ⟨u, hu, rfl⟩ := List.mem_map.1 hy
    exact Nat.lt_of_le_of_lt (h.posted_le x hx).2 (hregisters.between u hu).1
  posted_le := by
    rw [hposted]
    intro x hx
    rcases List.mem_append.1 hx with hx | hx
    · exact ⟨(h.posted_le x hx).1, Nat.le_trans (h.posted_le x hx).2 hregisters.sent_le⟩
    · obtain ⟨u, hu, rfl⟩ := List.mem_map.1 hx
      have := hregisters.between u hu
      omega
  heard := by
    rw [hposted, hheard]
    intro x hx
    obtain ⟨hle, happlied⟩ := h.heard x hx
    refine ⟨by rw [List.length_append]; omega, ?_⟩
    rw [happlied, List.take_append_of_le_length hle]
  acknowledgements := by
    rw [hregisters.acknowledgements_eq hheard]
    exact h.acknowledgements

include hregisters in
/-- The account of a party in the session to which some edits were sent: what the sender has
applied then is how the party's own edits began. -/
theorem Balanced.hears (h : peer.Balanced) (hpeer : peer.isOpen)
    (hreceived : a.backlog.received = a.applied.length) (hmeets : a.Meets peer)
    (hmeets' : peer.Meets a) : (peer.hears said).Balanced := by
  have hseen : ∀ x ∈ said, x.1.seen = a.backlog.received := fun x hx =>
    (hregisters.marked x hx).1
  rw [Account.hears, if_pos hpeer]
  refine ⟨h.sent_eq, h.received_eq, h.posted_lt, h.posted_le, ?_, ?_⟩
  · intro x hx
    rcases List.mem_append.1 hx with hx | hx
    · exact h.heard x hx
    · rw [hseen x hx, (hregisters.marked x hx).2, hmeets.posted_eq, hreceived, List.length_append]
      exact ⟨Nat.le_add_right _ _, List.take_left.symm⟩
  · rw [Account.acknowledgements, List.map_append, ← List.cons_append, List.pairwise_append]
    refine ⟨h.acknowledgements, ?_, ?_⟩
    · refine List.pairwise_map.2 (List.pairwise_of_forall_mem_list fun x hx y hy => ?_)
      rw [hseen x hx, hseen y hy]
    · intro x hx y hy
      obtain ⟨u, hu, rfl⟩ := List.mem_map.1 hy
      rw [hseen u hu]
      exact hmeets'.le_received x hx

include hposted hregisters in
theorem Meets.hears (h : peer.Meets a) (hpeer : peer.isOpen) : (peer.hears said).Meets a' := by
  rw [Account.hears, if_pos hpeer]
  refine ⟨?_, ?_⟩
  · rw [hposted, h.posted_eq, List.append_assoc, coming, coming, List.map_append]
  · rw [hregisters.received_eq]
    intro x hx
    rw [acknowledgements, List.map_append, ← List.cons_append] at hx
    rcases List.mem_append.1 hx with hx | hx
    · exact h.le_received x hx
    · obtain ⟨u, hu, rfl⟩ := List.mem_map.1 hx
      exact Nat.le_of_eq (hregisters.marked u hu).1

include happlied hposted hheard hregisters in
/-- A party that is in the session sends some edits. -/
theorem Settled.say (h : Settled a peer) (hopen : a.isOpen) : Settled a' (peer.hears said) := by
  refine ⟨h.left.sends happlied hposted hheard hregisters, ?_, fun _ hpeer => ?_⟩
  · by_cases hpeer : peer.isOpen = true
    · obtain ⟨hmeets, hmeets'⟩ := h.meets hopen hpeer
      exact h.right.hears hregisters hpeer h.left.received_eq hmeets hmeets'
    · rw [Account.hears, if_neg hpeer, List.append_nil]
      exact h.right
  · obtain ⟨hmeets, hmeets'⟩ := h.meets hopen hpeer
    refine ⟨⟨?_, ?_⟩, hmeets'.hears hposted hregisters hpeer⟩
    · rw [coming, hheard, happlied]
      exact hmeets.posted_eq
    · rw [hregisters.acknowledgements_eq hheard]
      exact hmeets.le_received

end Saying

/-! ## What is retired -/

section Numbers

variable {l : List Nat}

/-- The numbers of a list that goes up are apart by at least as much as their places. -/
theorem getElem_add_le (h : l.Pairwise (· < ·)) {t s : Nat} (hle : t ≤ s) (hs : s < l.length) :
    l[t] + (s - t) ≤ l[s] := by
  induction s, hle using Nat.le_induction with
  | base => rw [Nat.sub_self, Nat.add_zero]
  | succ s hle ih =>
      have hlt := List.pairwise_iff_getElem.1 h s (s + 1) (by omega) hs (Nat.lt_succ_self s)
      have hrest := ih (by omega)
      omega

/-- Numbers that go up from one on and have not gone ahead at some place have no gap before
it. -/
theorem getElem_eq_succ (h : l.Pairwise (· < ·)) (hpos : ∀ x ∈ l, 1 ≤ x) {s : Nat}
    (hs : s < l.length) (hle : l[s] ≤ s + 1) {t : Nat} (hts : t ≤ s) : l[t] = t + 1 := by
  have hfirst := getElem_add_le h (Nat.zero_le t) (by omega)
  have hlast := getElem_add_le h hts hs
  have hzero := hpos l[0] (List.getElem_mem _)
  omega

/-- Numbers that go up from one on are their places, as far as all of them are there. -/
theorem getElem_eq_succ_of_forall_mem (h : l.Pairwise (· < ·)) (hpos : ∀ x ∈ l, 1 ≤ x) {k : Nat}
    (hall : ∀ j, 1 ≤ j → j ≤ k → j ∈ l) {t : Nat} (hk : t < k) (ht : t < l.length) :
    l[t] = t + 1 := by
  induction t using Nat.strong_induction_on with
  | _ t ih =>
      obtain ⟨i, hi, heq⟩ := List.mem_iff_getElem.1 (hall (t + 1) (by omega) hk)
      have hfirst := getElem_add_le h (Nat.zero_le i) hi
      have hzero := hpos l[0] (List.getElem_mem _)
      obtain rfl | hlt : i = t ∨ i < t := by omega
      · exact heq
      · have := ih i hlt (by omega) hi
        omega

end Numbers

/-- The oldest update on the way retires, of the outstanding edits, exactly those that its
author had applied, if and only if all the edits that it acknowledges were sent. -/
theorem Balanced.retired_iff (h : a.Balanced) {u : Update} {m : Postmark}
    {rest : List (Update × Postmark)} (hheard : a.heard = (u, m) :: rest) :
    (∀ i < a.backlog.outstanding.length, i < (a.backlog.retired u.seen).length ↔
        a.backlog.acknowledged + 1 + i ∈ m.applied) ↔
      ∀ j, 1 ≤ j → j ≤ u.seen → j ∈ a.posted := by
  obtain ⟨hlength, happlied⟩ := h.heard (u, m) (hheard ▸ List.mem_cons_self)
  have hsent := h.sent_eq
  have hpos : ∀ x ∈ a.posted, 1 ≤ x := fun x hx => (h.posted_le x hx).1
  have hacknowledged : a.backlog.acknowledged ≤ u.seen := by
    have hordered := h.acknowledgements
    rw [Account.acknowledgements, hheard, List.map_cons, List.pairwise_cons] at hordered
    exact hordered.1 u.seen List.mem_cons_self
  dsimp only at hlength happlied
  -- No more was acknowledged than was sent, and no more was sent than was registered.
  have hseen : u.seen ≤ a.backlog.sent := by
    by_contra hlt
    have hlast := getElem_add_le h.posted_lt (Nat.zero_le a.backlog.sent) (by omega)
    have hfirst := hpos a.posted[0] (List.getElem_mem _)
    have hle := (h.posted_le a.posted[a.backlog.sent] (List.getElem_mem _)).2
    omega
  have hretired : (a.backlog.retired u.seen).length = u.seen - a.backlog.acknowledged := by
    rw [Backlog.retired, List.length_take]
    omega
  rw [hretired, happlied]
  constructor
  · intro hexact j hj hjseen
    -- The last edit that was applied was either retired, and then there is no gap, or not.
    have hlast : u.seen - 1 < a.posted.length := by omega
    by_cases hgap : a.posted[u.seen - 1] ≤ u.seen - 1 + 1
    · have hnumber := getElem_eq_succ h.posted_lt hpos hlast hgap (show j - 1 ≤ u.seen - 1 by omega)
      rw [show j = a.posted[j - 1] by omega]
      exact List.getElem_mem _
    · have hmem : a.posted[u.seen - 1] ∈ a.posted.take u.seen :=
        List.mem_take_iff_getElem.2 ⟨u.seen - 1, by omega, rfl⟩
      have hle := (h.posted_le _ (List.getElem_mem hlast)).2
      have hiff := hexact (a.posted[u.seen - 1] - a.backlog.acknowledged - 1) (by omega)
      rw [show a.backlog.acknowledged + 1 + (a.posted[u.seen - 1] - a.backlog.acknowledged - 1) =
        a.posted[u.seen - 1] by omega] at hiff
      have := hiff.2 hmem
      omega
  · intro hall i hi
    -- There is no gap, so the edits that were applied are numbered by their places.
    have hnumber : ∀ t (ht : t < u.seen), a.posted[t] = t + 1 := fun t ht =>
      getElem_eq_succ_of_forall_mem h.posted_lt hpos hall ht (by omega)
    rw [List.mem_take_iff_getElem]
    constructor
    · intro hlt
      exact ⟨a.backlog.acknowledged + i, by omega, by rw [hnumber _ (by omega)]; omega⟩
    · rintro ⟨t, ht, heq⟩
      have := hnumber t (by omega)
      omega

end Account

end PairEdit.Session
