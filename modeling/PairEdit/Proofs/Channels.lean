import PairEdit.Proofs.Offsets

/-!
# What endpoints can rely on

A session relies on the network to bring what is sent to a peer, once and in order.  Whom a peer
is reached at can be told from the history of the network alone: it is the endpoint that was
made for the peer last, unless the peer was disconnected since.  What an endpoint has received
and what is queued there is then all that came while its peer was reached there: the messages
that were sent to the peer and the notices about the others that left, in the order in which that
happened.  An endpoint that nothing reaches any more keeps what it has, and gives it out before it
is closed.
-/

namespace PairEdit.Network

/-- Something that was done on a network by those who hold an endpoint, and what came of it. -/
inductive Entry where
  | created (id : Nat) (peer : PeerId)
  /-- The holder of the endpoint `source`, which was made for `sender`, sent to a peer. -/
  | sent (source : Nat) (sender peer : PeerId) (payload : Bytes) (result : Except SyncError Unit)
  | disconnected (peer : PeerId)
  | received (id : Nat) (result : Except SyncError (Option Arrival))

/-- How a network came about from one without endpoints, the latest entry first.  Nobody lets go
of an endpoint. -/
inductive History : List Entry → Network → Prop where
  | empty : History [] .empty
  | create {h : List Entry} {n : Network} (hist : History h n) (peer : PeerId) :
      History (.created (n.create peer).1 peer :: h) (n.create peer).2
  | send {h : List Entry} {n : Network} (hist : History h n) {source : Nat} {sender : PeerId}
      (hsource : .created source sender ∈ h) (peer : PeerId) (payload : Bytes) :
      History (.sent source sender peer payload (n.send source peer payload).1 :: h)
        (n.send source peer payload).2
  | disconnect {h : List Entry} {n : Network} (hist : History h n) (peer : PeerId) :
      History (.disconnected peer :: h) (n.disconnect peer)
  | receive {h : List Entry} {n : Network} (hist : History h n) {id : Nat} {owner : PeerId}
      (hid : .created id owner ∈ h) :
      History (.received id (n.receive id).1 :: h) (n.receive id).2

/-- The endpoint at which a peer is reached. -/
def registered (peer : PeerId) : List Entry → Option Nat
  | [] => none
  | .created id p :: earlier => if p = peer then some id else registered peer earlier
  | .disconnected p :: earlier => if p = peer then none else registered peer earlier
  | .sent .. :: earlier => registered peer earlier
  | .received .. :: earlier => registered peer earlier

/-- What an entry brings to the endpoint with a number, which was made for `owner`. -/
def Entry.brings? (id : Nat) (owner : PeerId) (earlier : List Entry) : Entry → Option Arrival
  | .sent _ sender peer payload (.ok ()) =>
      if registered peer earlier = some id then some (.message sender payload) else none
  | .disconnected peer =>
      if (registered peer earlier).isSome ∧ peer ≠ owner ∧ registered owner earlier = some id then
        some (.disconnected peer)
      else none
  | _ => none

/-- All that came to an endpoint, oldest first. -/
def mail (id : Nat) (owner : PeerId) : List Entry → List Arrival
  | [] => []
  | entry :: earlier => mail id owner earlier ++ (entry.brings? id owner earlier).toList

/-- What an entry takes from the endpoint with a number. -/
def Entry.takes? (id : Nat) : Entry → Option Arrival
  | .received i (.ok (some arrival)) => if i = id then some arrival else none
  | _ => none

/-- All that was taken from an endpoint, oldest first. -/
def taken (id : Nat) : List Entry → List Arrival
  | [] => []
  | entry :: earlier => taken id earlier ++ (entry.takes? id).toList

/-- What those who hold an endpoint can rely on. -/
structure Contract (h : List Entry) (n : Network) : Prop where
  /-- Nothing is lost, comes twice or overtakes. -/
  keeps : ∀ {id owner}, .created id owner ∈ h →
    taken id h ++ (n.endpoint id).queue = mail id owner h
  /-- When a peer has left, all that it sent has come before, and no more comes from it unless an
  endpoint is made for it again. -/
  departs : ∀ {id owner peer later earlier}, h = later ++ .disconnected peer :: earlier →
    registered owner earlier = some id → (registered peer earlier).isSome → peer ≠ owner →
    ∃ rest, mail id owner h = mail id owner earlier ++ .disconnected peer :: rest ∧
      ((∀ i, .created i peer ∉ later) → ∀ payload, .message peer payload ∉ rest)
  /-- To send succeeds when both peers are reached, and else nothing happens. -/
  sends : ∀ {source sender}, .created source sender ∈ h → ∀ peer payload,
    ((n.send source peer payload).1 = .ok () ↔
      (registered sender h).isSome ∧ (registered peer h).isSome) ∧
    ((n.send source peer payload).1 ≠ .ok () → (n.send source peer payload).2 = n)
  /-- An endpoint gives out what came and was not taken yet.  It is closed when that is all
  and its peer is not reached there. -/
  gives : ∀ {id owner}, .created id owner ∈ h →
    (n.receive id).1 = match (mail id owner h).drop (taken id h).length with
      | arrival :: _ => .ok (some arrival)
      | [] => if registered owner h = some id then .ok none else .error .channelClosed
  /-- Where a peer is not reached, it is not reached again, and nothing more comes. -/
  closes : ∀ {id owner}, .created id owner ∈ h → registered owner h ≠ some id →
    ∀ {later n'}, History (later ++ h) n' →
      registered owner (later ++ h) ≠ some id ∧ mail id owner (later ++ h) = mail id owner h

variable {h : List Entry} {n : Network} {id : Nat} {owner peer : PeerId}

/-! ## Endpoints after each step -/

theorem endpoint_modify (n : Network) (i id : Nat) (f : Endpoint → Endpoint) :
    (n.modify i f).endpoint id = if id = i then f (n.endpoint id) else n.endpoint id := by
  split
  · next heq =>
      subst heq
      exact Table.get_modify_self ..
  · next hne => exact Table.get_modify_of_ne _ _ hne

/-- A change of all endpoints that leaves one nobody made as it is. -/
theorem endpoint_map {n : Network} {f : Endpoint → Endpoint} (hf : f default = default)
    (id : Nat) : Network.endpoint ⟨⟨n.endpoints.slots.map f⟩⟩ id = f (n.endpoint id) := by
  simp only [endpoint, Table.get, List.getElem?_map]
  cases n.endpoints.slots[id]? with
  | none => exact hf.symm
  | some e => rfl

theorem endpoint_create (n : Network) (peer : PeerId) (id : Nat) :
    (n.create peer).2.endpoint id =
      if id = n.endpoints.slots.length then ⟨peer, [], true, true⟩
      else Endpoint.detachFrom peer (n.endpoint id) := by
  have hdefault : Endpoint.detachFrom peer default = default := by
    unfold Endpoint.detachFrom
    split <;> rfl
  have hmap := endpoint_map (n := n) hdefault id
  rw [← hmap]
  simp only [create, endpoint, Table.get_push, List.length_map]

theorem endpoint_disconnect (n : Network) (peer : PeerId) (id : Nat) :
    (n.disconnect peer).endpoint id =
      if n.isConnected peer then Endpoint.leave peer (n.endpoint id) else n.endpoint id := by
  unfold disconnect
  split
  · exact endpoint_map rfl id
  · rfl

theorem length_le_modify (n : Network) (i : Nat) (f : Endpoint → Endpoint) :
    n.endpoints.slots.length ≤ (n.modify i f).endpoints.slots.length := by
  rw [modify, Table.length_modify]
  exact Nat.le_max_left ..

/-- Whoever leaves is attached nowhere. -/
theorem attached_leave (peer : PeerId) (e : Endpoint) :
    (Endpoint.leave peer e).attached = true ↔ e.attached = true ∧ e.peer ≠ peer := by
  unfold Endpoint.leave Endpoint.deliver
  by_cases hattached : e.attached = true
  · by_cases hpeer : e.peer = peer <;> simp [hattached, hpeer]
  · simp [hattached]

/-- All others that are attached are told. -/
theorem queue_leave (peer : PeerId) (e : Endpoint) :
    (Endpoint.leave peer e).queue =
      e.queue ++ if e.attached = true ∧ e.peer ≠ peer then [.disconnected peer] else [] := by
  unfold Endpoint.leave Endpoint.deliver
  by_cases hattached : e.attached = true
  · by_cases hpeer : e.peer = peer <;> simp [hattached, hpeer]
  · simp [hattached]

theorem peer_held_leave (peer : PeerId) (e : Endpoint) :
    (Endpoint.leave peer e).peer = e.peer ∧ (Endpoint.leave peer e).held = e.held := by
  unfold Endpoint.leave Endpoint.deliver
  split
  · split <;> exact ⟨rfl, rfl⟩
  · exact ⟨rfl, rfl⟩

/-! ## Whom peers are reached at -/

theorem created_of_registered (hreg : registered peer h = some id) : .created id peer ∈ h := by
  induction h with
  | nil => cases hreg
  | cons entry earlier ih =>
      cases entry with
      | created i p =>
          simp only [registered] at hreg
          split at hreg
          · next heq =>
              cases hreg
              exact heq ▸ List.mem_cons_self
          · exact List.mem_cons_of_mem _ (ih hreg)
      | disconnected p =>
          simp only [registered] at hreg
          split at hreg
          · cases hreg
          · exact List.mem_cons_of_mem _ (ih hreg)
      | sent | received => exact List.mem_cons_of_mem _ (ih hreg)

/-- What was said to be so before the peer left is so no more, until an endpoint is made for it
again. -/
theorem registered_of_left {later earlier : List Entry} (hnew : ∀ i, .created i peer ∉ later) :
    registered peer (later ++ .disconnected peer :: earlier) = none := by
  induction later with
  | nil => exact if_pos rfl
  | cons entry later ih =>
      have ih := ih fun i hi => hnew i (List.mem_cons_of_mem _ hi)
      cases entry with
      | created i p =>
          have hne : p ≠ peer := fun heq => hnew i (heq ▸ List.mem_cons_self)
          exact (if_neg hne).trans ih
      | disconnected p =>
          simp only [List.cons_append, registered]
          split
          · rfl
          · exact ih
      | sent | received => exact ih

theorem mail_cons_created (id i : Nat) (owner p : PeerId) (h : List Entry) :
    mail id owner (.created i p :: h) = mail id owner h :=
  List.append_nil _

theorem mail_cons_received (id i : Nat) (owner : PeerId) (h : List Entry)
    (result : Except SyncError (Option Arrival)) :
    mail id owner (.received i result :: h) = mail id owner h :=
  List.append_nil _

theorem taken_cons_of_takes?_eq_none {entry : Entry} (hentry : entry.takes? id = none) :
    taken id (entry :: h) = taken id h := by
  rw [taken, hentry, Option.toList_none, List.append_nil]

/-- Nothing comes to an endpoint that was not made. -/
theorem mail_eq_nil (hid : ∀ p, .created id p ∉ h) : mail id owner h = [] := by
  have hnot : ∀ {earlier : List Entry}, (∀ p, .created id p ∉ earlier) →
      ∀ p, registered p earlier ≠ some id :=
    fun hearlier p hreg => hearlier p (created_of_registered hreg)
  induction h with
  | nil => rfl
  | cons entry earlier ih =>
      have hearlier : ∀ p, .created id p ∉ earlier := fun p hp =>
        hid p (List.mem_cons_of_mem _ hp)
      rw [mail, ih hearlier]
      unfold Entry.brings?
      split
      · rw [if_neg (hnot hearlier _)]
        rfl
      · rw [if_neg fun hreg => hnot hearlier _ hreg.2.2]
        rfl
      · rfl

/-! ## The network and its history -/

/-- The network is as its history says. -/
structure Reflects (h : List Entry) (n : Network) : Prop where
  made : ∀ {id owner}, .created id owner ∈ h → id < n.endpoints.slots.length ∧
    (n.endpoint id).peer = owner ∧ (n.endpoint id).held = true
  attached : ∀ id, (n.endpoint id).attached = true ↔
    registered (n.endpoint id).peer h = some id
  untaken : ∀ {id}, (∀ owner, .created id owner ∉ h) → taken id h = []
  keeps : ∀ {id owner}, .created id owner ∈ h →
    taken id h ++ (n.endpoint id).queue = mail id owner h

namespace Reflects

theorem owner_unique (hn : Reflects h n) {p : PeerId} (hid : .created id owner ∈ h)
    (hid' : .created id p ∈ h) : p = owner :=
  (hn.made hid').2.1.symm.trans (hn.made hid).2.1

/-- A peer is attached where it is reached. -/
theorem attached?_eq (hn : Reflects h n) (peer : PeerId) :
    n.attached? peer = registered peer h := by
  have hslot : ∀ i (hi : i < n.endpoints.slots.length),
      n.endpoints.slots[i] = n.endpoint i := by
    intro i hi
    simp [endpoint, Table.get, hi]
  cases hreg : registered peer h with
  | none =>
      refine List.findIdx?_eq_none_iff.2 fun e he => ?_
      obtain ⟨i, hi, rfl⟩ := List.mem_iff_getElem.1 he
      rw [hslot, Bool.and_eq_false_iff]
      by_cases hattached : (n.endpoint i).attached = true
      · right
        rw [beq_eq_false_iff_ne]
        rintro rfl
        cases hreg.symm.trans ((hn.attached i).1 hattached)
      · exact .inl (Bool.eq_false_iff.2 hattached)
  | some id =>
      obtain ⟨hlt, hpeer, -⟩ := hn.made (created_of_registered hreg)
      refine List.findIdx?_eq_some_iff_getElem.2 ⟨hlt, ?_, fun j hj => ?_⟩
      · rw [hslot, (hn.attached id).2 (hpeer.symm ▸ hreg), hpeer]
        simp
      · rw [hslot, Bool.and_eq_true, beq_iff_eq]
        rintro ⟨hattached, hpeer'⟩
        have hreg' := (hn.attached j).1 hattached
        rw [hpeer', hreg] at hreg'
        have := Option.some.inj hreg'
        omega

/-- To send succeeds when both peers are reached. -/
theorem send_eq (hn : Reflects h n) {source : Nat} {sender : PeerId}
    (hsource : .created source sender ∈ h) (peer : PeerId) (payload : Bytes) :
    n.send source peer payload =
      match registered sender h, registered peer h with
      | none, _ => (.error .localDisconnected, n)
      | some _, none => (.error (.peerNotConnected peer), n)
      | some _, some target =>
          (.ok (), n.modify target (Endpoint.deliver (.message sender payload))) := by
  have hpeer := (hn.made hsource).2.1
  simp only [send, isConnected, hpeer, hn.attached?_eq]
  cases hsender : registered sender h with
  | none => rfl
  | some i =>
      cases hreg : registered peer h with
      | none => rfl
      | some target =>
          have hheld := (hn.made (created_of_registered hreg)).2.2
          simp [hheld]

/-! ### What each step keeps -/

theorem empty : Reflects [] .empty where
  made := nofun
  attached id := by
    have hdefault : Network.empty.endpoint id = default := rfl
    rw [hdefault]
    exact ⟨nofun, nofun⟩
  untaken _ := rfl
  keeps := nofun

/-- An endpoint that is made gets a number that no other one has, and its peer is reached there
and nowhere else. -/
theorem create (hn : Reflects h n) (peer : PeerId) :
    Reflects (.created (n.create peer).1 peer :: h) (n.create peer).2 := by
  have hnumber : (n.create peer).1 = n.endpoints.slots.length := by
    simp only [Network.create, Table.push, List.length_map]
  have hlength : (n.create peer).2.endpoints.slots.length = n.endpoints.slots.length + 1 := by
    simp only [Network.create, Table.push, List.length_append, List.length_map,
      List.length_singleton]
  have hnew : ∀ p, .created n.endpoints.slots.length p ∉ h := fun p hp =>
    Nat.lt_irrefl _ (hn.made hp).1
  have hself : (n.create peer).2.endpoint n.endpoints.slots.length = ⟨peer, [], true, true⟩ := by
    rw [endpoint_create, if_pos rfl]
  have hother : ∀ {i}, i ≠ n.endpoints.slots.length → (n.create peer).2.endpoint i =
      Endpoint.detachFrom peer (n.endpoint i) := fun hne => by
    rw [endpoint_create, if_neg hne]
  have hdetach : ∀ e : Endpoint, (Endpoint.detachFrom peer e).peer = e.peer ∧
      (Endpoint.detachFrom peer e).held = e.held ∧
      (Endpoint.detachFrom peer e).queue = e.queue := by
    intro e
    unfold Endpoint.detachFrom
    split <;> exact ⟨rfl, rfl, rfl⟩
  rw [hnumber]
  refine ⟨fun {id owner} hid => ?_, fun id => ?_, fun {id} hid => ?_, fun {id owner} hid => ?_⟩
  · rw [hlength]
    obtain hhead | hid := List.mem_cons.1 hid
    · cases hhead
      rw [hself]
      exact ⟨Nat.lt_succ_self _, rfl, rfl⟩
    · obtain ⟨hlt, hpeer, hheld⟩ := hn.made hid
      rw [hother (Nat.ne_of_lt hlt), (hdetach _).1, (hdetach _).2.1]
      exact ⟨Nat.lt_succ_of_lt hlt, hpeer, hheld⟩
  · by_cases heq : id = n.endpoints.slots.length
    · subst heq
      rw [hself]
      simp [registered]
    · rw [hother heq, (hdetach _).1, registered]
      by_cases hpeer : (n.endpoint id).peer = peer
      · rw [Endpoint.detachFrom, if_pos hpeer, if_pos hpeer.symm]
        exact ⟨fun hattached => absurd hattached Bool.false_ne_true,
          fun hid => absurd (Option.some.inj hid).symm heq⟩
      · rw [Endpoint.detachFrom, if_neg hpeer, if_neg (Ne.symm hpeer)]
        exact hn.attached id
  · rw [taken_cons_of_takes?_eq_none rfl]
    exact hn.untaken fun p hp => hid p (List.mem_cons_of_mem _ hp)
  · rw [mail_cons_created, taken_cons_of_takes?_eq_none rfl]
    obtain hhead | hid := List.mem_cons.1 hid
    · cases hhead
      rw [hself, mail_eq_nil hnew, hn.untaken hnew]
      rfl
    · rw [hother (Nat.ne_of_lt (hn.made hid).1), (hdetach _).2.2]
      exact hn.keeps hid

/-- A change of the endpoints that attaches none, takes from none and brings what the entry says. -/
theorem of_brings {entry : Entry} {n' : Network} (hn : Reflects h n)
    (hcreated : ∀ i p, entry ≠ .created i p) (htakes : ∀ i, entry.takes? i = none)
    (hlength : n.endpoints.slots.length ≤ n'.endpoints.slots.length)
    (hpeer : ∀ i, (n'.endpoint i).peer = (n.endpoint i).peer)
    (hheld : ∀ i, (n'.endpoint i).held = (n.endpoint i).held)
    (hattached : ∀ i, (n'.endpoint i).attached = true ↔
      registered (n.endpoint i).peer (entry :: h) = some i)
    (hqueue : ∀ {i p}, .created i p ∈ h → (n'.endpoint i).queue =
      (n.endpoint i).queue ++ (entry.brings? i p h).toList) :
    Reflects (entry :: h) n' := by
  have hmem : ∀ {i p}, .created i p ∈ entry :: h → .created i p ∈ h := fun hi =>
    (List.mem_cons.1 hi).resolve_left fun heq => hcreated _ _ heq.symm
  refine ⟨fun {id owner} hid => ?_, fun id => ?_, fun {id} hid => ?_, fun {id owner} hid => ?_⟩
  · rw [hpeer, hheld]
    exact ⟨Nat.lt_of_lt_of_le (hn.made (hmem hid)).1 hlength, (hn.made (hmem hid)).2⟩
  · rw [hpeer]
    exact hattached id
  · rw [taken_cons_of_takes?_eq_none (htakes id)]
    exact hn.untaken fun p hp => hid p (List.mem_cons_of_mem _ hp)
  · rw [taken_cons_of_takes?_eq_none (htakes id), hqueue (hmem hid), mail,
      ← List.append_assoc, hn.keeps (hmem hid)]

theorem send (hn : Reflects h n) {source : Nat} {sender : PeerId}
    (hsource : .created source sender ∈ h) (peer : PeerId) (payload : Bytes) :
    Reflects (.sent source sender peer payload (n.send source peer payload).1 :: h)
      (n.send source peer payload).2 := by
  rw [hn.send_eq hsource]
  cases registered sender h with
  | none =>
      exact hn.of_brings nofun (fun _ => rfl) (Nat.le_refl _) (fun _ => rfl) (fun _ => rfl)
        hn.attached fun _ => (List.append_nil _).symm
  | some i =>
      cases hreg : registered peer h with
      | none =>
          exact hn.of_brings nofun (fun _ => rfl) (Nat.le_refl _) (fun _ => rfl) (fun _ => rfl)
            hn.attached fun _ => (List.append_nil _).symm
      | some target =>
          have hendpoint := fun i => endpoint_modify n target i
            (Endpoint.deliver (.message sender payload))
          refine hn.of_brings nofun (fun _ => rfl) ?_ (fun i => ?_) (fun i => ?_) (fun i => ?_)
            fun {i p} _ => ?_
          · exact length_le_modify ..
          · rw [hendpoint]
            split <;> rfl
          · rw [hendpoint]
            split <;> rfl
          · have hsame : ((n.modify target
                (Endpoint.deliver (.message sender payload))).endpoint i).attached =
                (n.endpoint i).attached := by
              rw [hendpoint]
              split <;> rfl
            rw [hsame]
            exact hn.attached i
          · rw [hendpoint, Entry.brings?, hreg]
            by_cases heq : i = target
            · rw [if_pos heq, if_pos (congrArg some heq.symm)]
              rfl
            · rw [if_neg heq, if_neg fun hsome => heq (Option.some.inj hsome).symm]
              exact (List.append_nil _).symm

/-- Whoever leaves is reached nowhere, and all others that are reached are told. -/
theorem disconnect (hn : Reflects h n) (peer : PeerId) :
    Reflects (.disconnected peer :: h) (n.disconnect peer) := by
  have hconnected : n.isConnected peer = (registered peer h).isSome := by
    rw [isConnected, hn.attached?_eq]
  have hendpoint := endpoint_disconnect n peer
  rw [hconnected] at hendpoint
  have hcreated : ∀ i p, Entry.disconnected peer ≠ .created i p := by
    intro i p heq
    cases heq
  cases hreg : registered peer h with
  | none =>
      -- Nobody was there to leave.
      have hsame : n.disconnect peer = n := if_neg (by simp [hconnected, hreg])
      rw [hsame]
      refine hn.of_brings hcreated (fun _ => rfl) (Nat.le_refl _) (fun _ => rfl) (fun _ => rfl)
        (fun i => ?_) fun {i p} _ => ?_
      · rw [hn.attached i, registered]
        split
        · next heq => rw [← heq, hreg]
        · rfl
      · rw [Entry.brings?, hreg, if_neg (by simp)]
        exact (List.append_nil _).symm
  | some j =>
      have hleave : ∀ i, (n.disconnect peer).endpoint i = Endpoint.leave peer (n.endpoint i) :=
        fun i => (hendpoint i).trans (if_pos (by rw [hreg]; rfl))
      refine hn.of_brings hcreated (fun _ => rfl) ?_ (fun i => ?_) (fun i => ?_) (fun i => ?_)
        fun {i p} hi => ?_
      · refine Nat.le_of_eq ?_
        rw [Network.disconnect, if_pos (by rw [hconnected, hreg]; rfl), List.length_map]
      · rw [hleave, (peer_held_leave ..).1]
      · rw [hleave, (peer_held_leave ..).2]
      · rw [hleave, attached_leave, hn.attached i, registered]
        by_cases hpeer : (n.endpoint i).peer = peer
        · simp [hpeer]
        · simp [hpeer, Ne.symm hpeer]
      · have howner := (hn.made hi).2.1
        simp only [hleave, queue_leave, hn.attached i, howner, Entry.brings?, hreg]
        by_cases hpeer : p = peer
        · simp [hpeer]
        · by_cases hreached : registered p h = some i
          · simp [hpeer, Ne.symm hpeer, hreached]
          · simp [hreached]

/-- What is taken is what was queued longest. -/
theorem receive (hn : Reflects h n) (hid : .created id owner ∈ h) :
    Reflects (.received id (n.receive id).1 :: h) (n.receive id).2 := by
  unfold Network.receive
  dsimp only
  cases hqueue : (n.endpoint id).queue with
  | nil =>
      refine hn.of_brings nofun (fun i => ?_) (Nat.le_refl _) (fun _ => rfl) (fun _ => rfl)
        hn.attached fun _ => (List.append_nil _).symm
      dsimp only
      split <;> rfl
  | cons arrival rest =>
      have hmem : ∀ {i p}, .created i p ∈ .received id (.ok (some arrival)) :: h →
          .created i p ∈ h := fun hi => (List.mem_cons.1 hi).resolve_left nofun
      have hendpoint := fun i => endpoint_modify n id i fun e => { e with queue := rest }
      refine ⟨fun {i p} hi => ?_, fun i => ?_, fun {i} hi => ?_, fun {i p} hi => ?_⟩
      · obtain ⟨hlt, hmade⟩ := hn.made (hmem hi)
        refine ⟨Nat.lt_of_lt_of_le hlt (length_le_modify ..), ?_⟩
        rw [hendpoint]
        split <;> exact hmade
      · rw [hendpoint]
        split <;> exact hn.attached i
      · have hne : id ≠ i := fun heq => hi owner (heq ▸ List.mem_cons_of_mem _ hid)
        have htakes : (Entry.received id (.ok (some arrival))).takes? i = none := if_neg hne
        rw [taken_cons_of_takes?_eq_none htakes]
        exact hn.untaken fun p hp => hi p (List.mem_cons_of_mem _ hp)
      · rw [mail_cons_received, hendpoint, ← hn.keeps (hmem hi), taken, Entry.takes?]
        by_cases heq : i = id
        · subst heq
          rw [if_pos rfl, if_pos rfl, hqueue, List.append_assoc]
          rfl
        · rw [if_neg heq, if_neg (Ne.symm heq), Option.toList_none, List.append_nil]

end Reflects

theorem History.reflects (hist : History h n) : Reflects h n := by
  induction hist with
  | empty => exact .empty
  | create _ peer ih => exact ih.create peer
  | send _ hsource peer payload ih => exact ih.send hsource peer payload
  | disconnect _ peer ih => exact ih.disconnect peer
  | receive _ hid ih => exact ih.receive hid

/-! ## The contract -/

/-- What is sent to a peer comes to where it is reached, and so to an endpoint of its own. -/
theorem Reflects.brings?_eq_none (hn : Reflects h n) (hid : .created id owner ∈ h)
    (hreg : registered owner h ≠ some id) (entry : Entry) : entry.brings? id owner h = none := by
  unfold Entry.brings?
  split
  · next source sender peer payload =>
      refine if_neg fun hpeer => hreg ?_
      rw [hn.owner_unique hid (created_of_registered hpeer)] at hpeer
      exact hpeer
  · exact if_neg fun hbrings => hreg hbrings.2.2
  · rfl

/-- Where a peer is not reached it is not reached again, and nothing more comes. -/
theorem History.closes {later : List Entry} (hist : History (later ++ h) n)
    (hid : .created id owner ∈ h) (hreg : registered owner h ≠ some id) :
    registered owner (later ++ h) ≠ some id ∧ mail id owner (later ++ h) = mail id owner h := by
  induction later generalizing n with
  | nil => exact ⟨hreg, rfl⟩
  | cons entry later ih =>
      have hstep : ∀ {n₀}, History (later ++ h) n₀ →
          (registered owner (later ++ h) ≠ some id →
            registered owner (entry :: (later ++ h)) ≠ some id) →
          registered owner (entry :: later ++ h) ≠ some id ∧
            mail id owner (entry :: later ++ h) = mail id owner h := by
        intro n₀ hist₀ hentry
        obtain ⟨hreg₀, hmail₀⟩ := ih hist₀
        have hid₀ : .created id owner ∈ later ++ h := List.mem_append_right _ hid
        refine ⟨hentry hreg₀, ?_⟩
        rw [List.cons_append, mail, hmail₀, hist₀.reflects.brings?_eq_none hid₀ hreg₀,
          Option.toList_none, List.append_nil]
      cases hist with
      | create hist₀ peer =>
          -- The new endpoint has a number of its own.
          refine hstep hist₀ fun hreg₀ => ?_
          have hlt := (hist₀.reflects.made (List.mem_append_right _ hid)).1
          rw [registered]
          split
          · intro heq
            have hnumber := Option.some.inj heq
            simp only [Network.create, Table.push, List.length_map] at hnumber
            omega
          · exact hreg₀
      | disconnect hist₀ peer =>
          refine hstep hist₀ fun hreg₀ => ?_
          rw [registered]
          split
          · exact (Option.some_ne_none id).symm
          · exact hreg₀
      | send hist₀ | receive hist₀ => exact hstep hist₀ fun hreg₀ => hreg₀

/-- A message comes from a peer that is reached itself. -/
theorem Reflects.registered_of_message (hn : Reflects h n) {source : Nat} {sender target : PeerId}
    (hsource : .created source sender ∈ h) {payload payload' : Bytes}
    (hbrings : (Entry.sent source sender target payload
      (n.send source target payload).1).brings? id owner h = some (.message peer payload')) :
    registered peer h ≠ none := by
  rw [hn.send_eq hsource] at hbrings
  cases hsender : registered sender h with
  | none =>
      rw [hsender] at hbrings
      cases hbrings
  | some i =>
      rw [hsender] at hbrings
      cases htarget : registered target h with
      | none =>
          rw [htarget] at hbrings
          cases hbrings
      | some j =>
          simp only [htarget, Entry.brings?] at hbrings
          split at hbrings
          · cases hbrings
            rw [hsender]
            nofun
          · cases hbrings

/-- The notice of a leave stands behind all that the peer has sent. -/
theorem History.departs (hist : History h n) {later earlier : List Entry}
    (hsplit : h = later ++ .disconnected peer :: earlier)
    (hreached : registered owner earlier = some id) (hleft : (registered peer earlier).isSome)
    (hne : peer ≠ owner) :
    ∃ rest, mail id owner h = mail id owner earlier ++ .disconnected peer :: rest ∧
      ((∀ i, .created i peer ∉ later) → ∀ payload, .message peer payload ∉ rest) := by
  subst hsplit
  induction later generalizing n with
  | nil =>
      refine ⟨[], ?_, fun _ payload => List.not_mem_nil⟩
      rw [List.nil_append, mail, Entry.brings?, if_pos ⟨hleft, hne, hreached⟩]
      rfl
  | cons entry later ih =>
      have hstep : ∀ {n₀}, History (later ++ .disconnected peer :: earlier) n₀ →
          (registered peer (later ++ .disconnected peer :: earlier) = none → ∀ payload,
            entry.brings? id owner (later ++ .disconnected peer :: earlier) ≠
              some (.message peer payload)) →
          ∃ rest, mail id owner (entry :: later ++ .disconnected peer :: earlier) =
              mail id owner earlier ++ .disconnected peer :: rest ∧
            ((∀ i, .created i peer ∉ entry :: later) →
              ∀ payload, .message peer payload ∉ rest) := by
        intro n₀ hist₀ hentry
        obtain ⟨rest, hmail, hrest⟩ := ih hist₀
        refine ⟨rest ++ (entry.brings? id owner
          (later ++ .disconnected peer :: earlier)).toList, ?_, fun hnew payload hmem => ?_⟩
        · rw [List.cons_append, mail, hmail, List.append_assoc, List.cons_append]
        · have hnew' : ∀ i, .created i peer ∉ later := fun i hi =>
            hnew i (List.mem_cons_of_mem _ hi)
          obtain hold | hlast := List.mem_append.1 hmem
          · exact hrest hnew' payload hold
          · exact hentry (registered_of_left hnew') payload (Option.mem_toList.1 hlast)
      cases hist with
      | send hist₀ hsource target payload =>
          exact hstep hist₀ fun hnone _ hbrings =>
            hist₀.reflects.registered_of_message hsource hbrings hnone
      | create hist₀ | receive hist₀ => exact hstep hist₀ fun _ _ => nofun
      | disconnect hist₀ p =>
          refine hstep hist₀ fun _ payload hbrings => ?_
          rw [Entry.brings?] at hbrings
          split at hbrings
          · cases hbrings
          · cases hbrings

/-- Whatever is done on a network as long as nobody lets go of an endpoint, it keeps what those
who hold one rely on. -/
theorem channel_contract (hist : History h n) : Contract h n where
  keeps := hist.reflects.keeps
  departs hsplit hreached hleft hne := hist.departs hsplit hreached hleft hne
  sends {source sender} hsource peer payload := by
    rw [hist.reflects.send_eq hsource]
    cases registered sender h with
    | none => simp
    | some i =>
        cases registered peer h with
        | none => simp
        | some target => simp
  gives {id owner} hid := by
    have hattached := hist.reflects.attached id
    rw [(hist.reflects.made hid).2.1] at hattached
    rw [← hist.reflects.keeps hid, List.drop_left, Network.receive]
    cases (n.endpoint id).queue with
    | cons arrival rest => rfl
    | nil =>
        by_cases hreg : registered owner h = some id
        · simp [hreg, hattached.2 hreg]
        · simp [hreg, show (n.endpoint id).attached = false by simpa [hreg] using hattached]
  closes hid hreg _ _ hist' := hist'.closes hid hreg

/-- A peer leaves and comes back.  The endpoint that it had before sends in its name again, then
the other peer's endpoint is replaced, and what is queued there stays. -/
theorem channel_contract_replaced :
    let a : PeerId := .ofByte 0xA1
    let b : PeerId := .ofByte 0xB0
    ∃ h n, History h n ∧ Contract h n ∧ registered a h = some 2 ∧ registered b h = some 3 ∧
      mail 1 b h = [.message a [1], .disconnected a, .message a [2]] ∧
      taken 1 h = [.message a [1]] ∧
      (n.endpoint 1).queue = [.disconnected a, .message a [2]] := by
  intro a b
  have hboth := (History.empty.create a).create b
  have hleft := (hboth.send (.tail _ (.head _)) b [1]).disconnect a
  have hback := hleft.create a
  have hold := hback.send (.tail _ (.tail _ (.tail _ (.tail _ (.head _))))) b [2]
  have hreplaced := hold.create b
  have hlast := hreplaced.receive (.tail _ (.tail _ (.tail _ (.tail _ (.tail _ (.head _))))))
  exact ⟨_, _, hlast, channel_contract hlast, by decide +kernel, by decide +kernel,
    by decide +kernel, by decide +kernel, by decide +kernel⟩

end PairEdit.Network
