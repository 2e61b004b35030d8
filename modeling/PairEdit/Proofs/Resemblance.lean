import PairEdit.Proofs.Outsiders

/-!
# Worlds that differ by arrivals of outsiders

A queue may hold arrivals that another one does not: `Inserted` says where.  A world resembles
another one, if it is the same but for such arrivals in the queue of one party, and for the
offers that the party has refused.  Whatever a call does that does not take arrivals from where
the two differ, it comes to the same in both.
-/

namespace PairEdit.Session

/-! ## Lists with something between -/

/-- The last list has the elements of the other two, each in their order. -/
inductive Woven {α : Type} : List α → List α → List α → Prop where
  | nil : Woven [] [] []
  | base {extras base all : List α} (a : α) (h : Woven extras base all) :
      Woven extras (a :: base) (a :: all)
  | extra {extras base all : List α} (a : α) (h : Woven extras base all) :
      Woven (a :: extras) base (a :: all)

namespace Woven

variable {α : Type} {extras base all : List α}

theorem refl (l : List α) : Woven [] l l := by
  induction l with
  | nil => exact .nil
  | cons a l ih => exact ih.base a

theorem eq_of_nil (h : Woven [] base all) : all = base := by
  generalize hextras : ([] : List α) = extras at h
  induction h with
  | nil => rfl
  | base a _ ih => rw [ih hextras]
  | extra => cases hextras

/-- What comes later comes after all that is woven. -/
theorem append_right (h : Woven extras base all) (l : List α) :
    Woven extras (base ++ l) (all ++ l) := by
  induction h with
  | nil => exact refl l
  | base a _ ih => exact ih.base a
  | extra a _ ih => exact ih.extra a

theorem concat_extra (h : Woven extras base all) (a : α) :
    Woven (extras ++ [a]) base (all ++ [a]) := by
  induction h with
  | nil => exact .extra a .nil
  | base b _ ih => exact ih.base b
  | extra b _ ih => exact ih.extra b

theorem ne_nil (h : Woven extras base all)
    (hextras : extras ≠ []) : all ≠ [] := by
  cases h with
  | nil => exact absurd rfl hextras
  | base | extra => exact List.cons_ne_nil _ _

end Woven

/-! ## Queues with arrivals inserted -/

/-- An arrival that only one of two queues holds. -/
structure Inserted where
  /-- How many arrivals that both hold stand between the inserted one before it and this one. -/
  ahead : Nat
  arrival : Arrival
deriving DecidableEq

namespace Inserted

variable {inserted rest : List Inserted} {queue : List Arrival} {a : Arrival}

/-- The queue that holds the inserted arrivals as well. -/
def merge : List Inserted → List Arrival → List Arrival
  | [], queue => queue
  | i :: rest, queue => queue.take i.ahead ++ i.arrival :: merge rest (queue.drop i.ahead)

/-- How many arrivals that both queues hold stand before the last inserted one. -/
def span : List Inserted → Nat
  | [] => 0
  | i :: rest => i.ahead + span rest

/-- Insert more arrivals behind all others, so many being in the other queue. -/
def enqueue (length : Nat) (inserted : List Inserted) : List Arrival → List Inserted
  | [] => inserted
  | a :: later => enqueue length (inserted ++ [⟨length - span inserted, a⟩]) later

/-- The inserted arrival that comes first of all, if one does, and the others. -/
def due? : List Inserted → Option (Arrival × List Inserted)
  | ⟨0, a⟩ :: rest => some (a, rest)
  | _ => none

/-- The first arrival has been taken from both queues. -/
def skip : List Inserted → List Inserted
  | [] => []
  | i :: rest => { i with ahead := i.ahead - 1 } :: rest

@[simp]
theorem span_cons (i : Inserted) (rest : List Inserted) :
    span (i :: rest) = i.ahead + span rest := rfl

theorem span_append (front back : List Inserted) :
    span (front ++ back) = span front + span back := by
  induction front with
  | nil => exact (Nat.zero_add _).symm
  | cons i rest ih => rw [List.cons_append, span_cons, span_cons, ih, Nat.add_assoc]

/-- What comes later comes after all that is inserted. -/
theorem merge_append (h : span inserted ≤ queue.length) (later : List Arrival) :
    merge inserted (queue ++ later) = merge inserted queue ++ later := by
  induction inserted generalizing queue with
  | nil => rfl
  | cons i rest ih =>
      rw [span_cons] at h
      have hahead : i.ahead ≤ queue.length := by omega
      have hrest : span rest ≤ (queue.drop i.ahead).length := by
        rw [List.length_drop]
        omega
      rw [merge, merge, List.take_append_of_le_length hahead, List.drop_append_of_le_length hahead,
        ih hrest, List.append_assoc, List.cons_append]

theorem merge_concat (h : span inserted ≤ queue.length) (a : Arrival) :
    merge (inserted ++ [⟨queue.length - span inserted, a⟩]) queue =
      merge inserted queue ++ [a] := by
  induction inserted generalizing queue with
  | nil => simp [merge, span]
  | cons i rest ih =>
      rw [span_cons] at h
      have hrest : span rest ≤ (queue.drop i.ahead).length := by
        rw [List.length_drop]
        omega
      have hlength : queue.length - span (i :: rest) = (queue.drop i.ahead).length - span rest := by
        rw [List.length_drop, span_cons]
        omega
      rw [hlength, List.cons_append, merge, merge, ih hrest, List.append_assoc, List.cons_append]

theorem span_concat (h : span inserted ≤ queue.length) (a : Arrival) :
    span (inserted ++ [⟨queue.length - span inserted, a⟩]) = queue.length := by
  have hsum : span (inserted ++ [⟨queue.length - span inserted, a⟩]) =
      span inserted + (queue.length - span inserted) := span_append ..
  omega

theorem span_enqueue (h : span inserted ≤ queue.length) (later : List Arrival) :
    span (enqueue queue.length inserted later) ≤ queue.length := by
  induction later generalizing inserted with
  | nil => exact h
  | cons a later ih => exact ih (Nat.le_of_eq (span_concat h a))

/-- What is enqueued is last in the queue. -/
theorem merge_enqueue (h : span inserted ≤ queue.length) (later : List Arrival) :
    merge (enqueue queue.length inserted later) queue = merge inserted queue ++ later := by
  induction later generalizing inserted with
  | nil => rw [enqueue, List.append_nil]
  | cons a later ih =>
      rw [enqueue, ih (Nat.le_of_eq (span_concat h a)), merge_concat h, List.append_assoc]
      rfl

theorem of_due? (h : due? inserted = some (a, rest)) : inserted = ⟨0, a⟩ :: rest := by
  rcases inserted with _ | ⟨⟨_ | n, b⟩, rest'⟩
  · cases h
  · cases h
    rfl
  · cases h

theorem merge_of_due (h : due? inserted = some (a, rest)) (queue : List Arrival) :
    merge inserted queue = a :: merge rest queue := by
  rw [of_due? h]
  rfl

theorem span_of_due (h : due? inserted = some (a, rest)) : span inserted = span rest := by
  rw [of_due? h, span_cons, Nat.zero_add]

theorem merge_skip (h : due? inserted = none) (a : Arrival) (queue : List Arrival) :
    merge inserted (a :: queue) = a :: merge (skip inserted) queue := by
  rcases inserted with _ | ⟨⟨_ | n, b⟩, rest⟩
  · rfl
  · cases h
  · rfl

theorem span_skip (h : due? inserted = none) {n : Nat} (hspan : span inserted ≤ n + 1) :
    span (skip inserted) ≤ n := by
  rcases inserted with _ | ⟨⟨_ | k, b⟩, rest⟩
  · exact Nat.zero_le n
  · cases h
  · simp only [skip, span_cons] at hspan ⊢
    omega

end Inserted

/-! ## Worlds side by side -/

/-- The second world is the first one, apart from refused offers and inserted arrivals: the host
of the party has been told of each offer that it refused, and the stops for them have arrived
among the other arrivals.  The arrivals are inserted in the queue of the party. -/
structure Resembles (p : Nat) (our : PeerId) (own : Nat) (refusals : List Refusal)
    (inserted : List Inserted) (w w' : World) : Prop where
  surfaces : w'.surfaces = w.surfaces
  scripts : w'.scripts = w.scripts
  underway : w'.underway = w.underway
  log : w'.log = w.log
  parties_length : w'.parties.slots.length = w.parties.slots.length
  party : ∀ q, w'.party q = { w.party q with events := (w'.party q).events }
  events_of_ne : ∀ q, q ≠ p → (w'.party q).events = (w.party q).events
  events : Woven (refusals.map Refusal.event) (w.party p).events (w'.party p).events
  endpoints_length : w'.network.endpoints.slots.length = w.network.endpoints.slots.length
  endpoint : ∀ id, w'.network.endpoint id =
    { w.network.endpoint id with queue := (w'.network.endpoint id).queue }
  queue_of_ne : ∀ id, id ≠ own → Woven (stopsAt our refusals id) (w.network.endpoint id).queue
    (w'.network.endpoint id).queue
  span_le : Inserted.span inserted ≤ (w.network.endpoint own).queue.length
  queue : (w'.network.endpoint own).queue = Inserted.merge inserted (w.network.endpoint own).queue

namespace LogOffset

variable {x x' : LogOffset} {takes takes' : Nat → Prop} {v : World}

theorem party_on_eq (hfits : x.Fits takes v) (q : Nat) :
    (x.on v).party q = x.onParty q (v.party q) :=
  Table.get_adjust (fun _ hj => onParty_eq_self hfits hj _) q

theorem endpoint_on_eq (hfits : x.Fits takes v) (id : Nat) :
    (x.on v).network.endpoint id = x.onEndpoint id (v.network.endpoint id) :=
  Table.get_adjust (fun j hj => onEndpoint_eq_self (hfits.queue_eq_nil j hj) _) id

/-- Two worlds that differ from a third by offsets resemble each other, when the offsets do. -/
theorem resembles {our : PeerId} {own : Nat} {refusals : List Refusal} {inserted : List Inserted}
    (hparty : x'.party = x.party) (hfits : x.Fits takes v) (hfits' : x'.Fits takes' v)
    (hevents : Woven (refusals.map Refusal.event) x.events x'.events)
    (hne : ∀ id, id ≠ own → Woven (stopsAt our refusals id) (x.queue id) (x'.queue id))
    (hspan : Inserted.span inserted ≤ (x.queue own).length)
    (hown : x'.queue own = Inserted.merge inserted (x.queue own)) :
    Resembles x.party our own refusals inserted (x.on v) (x'.on v) where
  surfaces := rfl
  scripts := rfl
  underway := rfl
  log := rfl
  parties_length := (Table.length_adjust ..).trans (Table.length_adjust ..).symm
  party q := by
    rw [party_on_eq hfits, party_on_eq hfits', onParty, onParty, hparty]
    split <;> rfl
  events_of_ne q hq := by
    rw [party_on_eq hfits, party_on_eq hfits', onParty, onParty, hparty, if_neg hq, if_neg hq]
  events := by
    rw [party_on_eq hfits, party_on_eq hfits', onParty, onParty, hparty, if_pos rfl, if_pos rfl]
    exact hevents.append_right _
  endpoints_length := (Table.length_adjust ..).trans (Table.length_adjust ..).symm
  endpoint id := by
    rw [endpoint_on_eq hfits, endpoint_on_eq hfits']
    rfl
  queue_of_ne id hid := by
    rw [endpoint_on_eq hfits, endpoint_on_eq hfits']
    exact (hne id hid).append_right _
  span_le := by
    rw [endpoint_on_eq hfits]
    exact Nat.le_trans hspan (List.length_append ▸ Nat.le_add_right ..)
  queue := by
    rw [endpoint_on_eq hfits, endpoint_on_eq hfits', onEndpoint, onEndpoint, hown]
    exact (Inserted.merge_append hspan _).symm

end LogOffset

namespace World

/-- A world without the events of a party and without the arrivals at some endpoints. -/
def forget (w : World) (p : Nat) (ids : List Nat) : World :=
  { w with
    parties := w.parties.adjust fun q party => if q = p then { party with events := [] } else party
    network := ⟨w.network.endpoints.adjust fun id e =>
      if id ∈ ids then { e with queue := [] } else e⟩ }

/-- The events of a party and the arrivals at some endpoints. -/
def logOffset (w : World) (p : Nat) (ids : List Nat) : LogOffset where
  party := p
  events := (w.party p).events
  queue id := if id ∈ ids then (w.network.endpoint id).queue else []

/-- What is forgotten is the offset. -/
theorem logOffset_on_forget (w : World) (p : Nat) (ids : List Nat) :
    (w.logOffset p ids).on (w.forget p ids) = w := by
  have hparties : ((w.forget p ids).parties.adjust (w.logOffset p ids).onParty) = w.parties := by
    refine Table.ext_get (by simp [forget]) fun q => ?_
    rcases Nat.lt_or_ge q w.parties.slots.length with h | h
    · rw [Table.get_adjust_of_lt (by simpa [forget] using h), forget, Table.get_adjust_of_lt h,
        LogOffset.onParty]
      by_cases hq : q = p
      · subst hq
        simp [logOffset, party]
      · simp [logOffset, hq]
    · rw [Table.get_adjust_of_le (by simpa [forget] using h), forget, Table.get_adjust_of_le h]
  have hendpoints : (w.forget p ids).network.endpoints.adjust (w.logOffset p ids).onEndpoint =
      w.network.endpoints := by
    refine Table.ext_get (by simp [forget]) fun id => ?_
    rcases Nat.lt_or_ge id w.network.endpoints.slots.length with h | h
    · rw [Table.get_adjust_of_lt (by simpa [forget] using h), forget, Table.get_adjust_of_lt h,
        LogOffset.onEndpoint]
      by_cases hid : id ∈ ids
      · simp [logOffset, hid, Network.endpoint]
      · simp [logOffset, hid]
    · rw [Table.get_adjust_of_le (by simpa [forget] using h), forget, Table.get_adjust_of_le h]
  have hworld : (w.logOffset p ids).on (w.forget p ids) =
      { w with
        parties := (w.forget p ids).parties.adjust (w.logOffset p ids).onParty
        network :=
          ⟨(w.forget p ids).network.endpoints.adjust (w.logOffset p ids).onEndpoint⟩ } := rfl
  rw [hworld, hparties, hendpoints]

theorem fits_logOffset {takes : Nat → Prop} {w : World} {p : Nat} {ids : List Nat}
    (hp : p < w.parties.slots.length) (hids : ∀ id ∈ ids, id < w.network.endpoints.slots.length)
    (htakes : ∀ q, takes q → (w.party q).endpoint ∉ ids)
    (hwaits : ∀ c, w.Waits c → ∀ q, c.taker? = some q → takes q) :
    (w.logOffset p ids).Fits takes (w.forget p ids) where
  party_lt := by simpa [forget, logOffset] using hp
  queue_eq_nil id hid := if_neg fun hmem => by
    have hlt := hids id hmem
    simp [forget] at hid
    omega
  taker q hq := by
    have hendpoint : ((w.forget p ids).party q).endpoint = (w.party q).endpoint :=
      Table.apply_get_adjust Party.endpoint (fun r party => by split <;> rfl) q
    rw [hendpoint]
    exact if_neg (htakes q hq)
  waiting := hwaits

end World

namespace World

/-- The world in which what is queued at an endpoint has changed. -/
def mapQueue (w : World) (id : Nat) (f : List Arrival → List Arrival) : World :=
  { w with network := w.network.modify id fun e => { e with queue := f e.queue } }

theorem length_mapQueue (w : World) (id : Nat) (f : List Arrival → List Arrival) :
    (w.mapQueue id f).network.endpoints.slots.length =
      max w.network.endpoints.slots.length (id + 1) :=
  Table.length_modify ..

theorem endpoint_mapQueue (w : World) (id : Nat) (f : List Arrival → List Arrival) (j : Nat) :
    (w.mapQueue id f).network.endpoint j =
      if j = id then { w.network.endpoint j with queue := f (w.network.endpoint j).queue }
      else w.network.endpoint j := by
  by_cases hj : j = id
  · rw [if_pos hj, hj]
    exact Table.get_modify_self ..
  · rw [if_neg hj]
    exact Table.get_modify_of_ne _ _ hj

theorem mapQueue_id {w : World} {id : Nat} (h : id < w.network.endpoints.slots.length) :
    w.mapQueue id (fun queue => queue) = w := by
  have hendpoints : (w.mapQueue id fun queue => queue).network.endpoints = w.network.endpoints := by
    refine Table.ext_get ?_ fun j => ?_
    · rw [length_mapQueue]
      omega
    · have hendpoint := endpoint_mapQueue w id (fun queue => queue) j
      rw [ite_self] at hendpoint
      exact hendpoint
  exact congrArg (fun endpoints => { w with network := ⟨endpoints⟩ }) hendpoints

end World

namespace Resembles

variable {p : Nat} {peer our : PeerId} {own : Nat} {refusals : List Refusal}
variable {inserted rest : List Inserted} {w w' : World}

theorem refl (p : Nat) (our : PeerId) (own : Nat) (w : World) : Resembles p our own [] [] w w where
  surfaces := rfl
  scripts := rfl
  underway := rfl
  log := rfl
  parties_length := rfl
  party _ := rfl
  events_of_ne _ _ := rfl
  events := .refl _
  endpoints_length := rfl
  endpoint _ := rfl
  queue_of_ne _ _ := .refl _
  span_le := Nat.zero_le _
  queue := rfl

theorem endpoint_party (h : Resembles p our own refusals inserted w w') (q : Nat) :
    (w'.party q).endpoint = (w.party q).endpoint := by
  rw [h.party q]

/-- The endpoints where stops arrived. -/
def targets (refusals : List Refusal) : List Nat := refusals.filterMap Refusal.target

/-- The endpoints whose queues may differ. -/
def differing (own : Nat) (refusals : List Refusal) (inserted : List Inserted) : List Nat :=
  (targets refusals).filter (· ≠ own) ++ if inserted = [] then [] else [own]

theorem mem_differing {id : Nat} : id ∈ differing own refusals inserted ↔
    id ∈ targets refusals ∧ id ≠ own ∨ id = own ∧ inserted ≠ [] := by
  by_cases hinserted : inserted = []
  · simp [differing, hinserted]
  · simp [differing, hinserted]

theorem stopsAt_eq_nil {id : Nat} (h : id ∉ targets refusals) : stopsAt our refusals id = [] := by
  have hnone : (refusals.filter fun r => r.target == some id) = [] :=
    List.filter_eq_nil_iff.2 fun r hr htarget =>
      h (List.mem_filterMap.2 ⟨r, hr, eq_of_beq htarget⟩)
  rw [stopsAt, hnone, List.map_nil]

theorem queue_eq (h : Resembles p our own refusals inserted w w') {id : Nat}
    (hid : id ∉ differing own refusals inserted) :
    (w'.network.endpoint id).queue = (w.network.endpoint id).queue := by
  rw [mem_differing, not_or, not_and_or, not_and_or, not_not, not_not] at hid
  by_cases hown : id = own
  · have hqueue := h.queue
    rw [hid.2.resolve_left (not_not.2 hown)] at hqueue
    rw [hown, hqueue, Inserted.merge]
  · have hqueue := h.queue_of_ne id hown
    rw [stopsAt_eq_nil (hid.1.resolve_right hown)] at hqueue
    exact hqueue.eq_of_nil

/-- When the offsets are forgotten nothing is left of the difference. -/
theorem forget_eq (h : Resembles p our own refusals inserted w w') :
    w'.forget p (differing own refusals inserted) =
      w.forget p (differing own refusals inserted) := by
  let ids := differing own refusals inserted
  have hparties : (w'.forget p ids).parties = (w.forget p ids).parties := by
    refine Table.ext_get (by simp [World.forget, h.parties_length]) fun q => ?_
    have hparty : w'.parties.get q = { w.parties.get q with events := (w'.party q).events } :=
      h.party q
    rcases Nat.lt_or_ge q w.parties.slots.length with hlt | hge
    · rw [World.forget, World.forget, Table.get_adjust_of_lt hlt,
        Table.get_adjust_of_lt (h.parties_length ▸ hlt), hparty]
      by_cases hq : q = p
      · rw [if_pos hq, if_pos hq]
      · rw [if_neg hq, if_neg hq, h.events_of_ne q hq]
        rfl
    · rw [World.forget, World.forget, Table.get_adjust_of_le hge,
        Table.get_adjust_of_le (h.parties_length ▸ hge), Table.get_of_le hge,
        Table.get_of_le (h.parties_length ▸ hge)]
  have hnetwork : (w'.forget p ids).network = (w.forget p ids).network := by
    refine congrArg Network.mk (Table.ext_get (by simp [h.endpoints_length]) fun id => ?_)
    have hendpoint : w'.network.endpoints.get id =
      { w.network.endpoints.get id with queue := (w'.network.endpoint id).queue } := h.endpoint id
    rcases Nat.lt_or_ge id w.network.endpoints.slots.length with hlt | hge
    · rw [Table.get_adjust_of_lt hlt, Table.get_adjust_of_lt (h.endpoints_length ▸ hlt), hendpoint]
      by_cases hid : id ∈ ids
      · rw [if_pos hid, if_pos hid]
      · rw [if_neg hid, if_neg hid, h.queue_eq hid]
        rfl
    · rw [Table.get_adjust_of_le hge, Table.get_adjust_of_le (h.endpoints_length ▸ hge),
        Table.get_of_le hge, Table.get_of_le (h.endpoints_length ▸ hge)]
  have hworld : w'.forget p ids = { w.forget p ids with
      parties := (w'.forget p ids).parties
      network := (w'.forget p ids).network } := by
    simp only [World.forget, h.surfaces, h.scripts, h.underway, h.log]
  rw [hworld, hparties, hnetwork]

/-- Only endpoints that exist differ. -/
theorem differing_lt (h : Resembles p our own refusals inserted w w') {id : Nat}
    (hid : id ∈ differing own refusals inserted) : id < w.network.endpoints.slots.length := by
  refine Nat.lt_of_not_le fun hge => ?_
  have hqueue : (w'.network.endpoint id).queue = [] := by
    rw [Network.endpoint, Table.get_of_le (h.endpoints_length ▸ hge)]
    rfl
  rcases mem_differing.1 hid with ⟨htargets, hne⟩ | ⟨rfl, hinserted⟩
  · obtain ⟨r, hr, htarget⟩ := List.mem_filterMap.1 htargets
    refine Woven.ne_nil (h.queue_of_ne id hne) ?_ hqueue
    have hmem : r ∈ refusals.filter fun r => r.target == some id :=
      List.mem_filter.2 ⟨hr, beq_iff_eq.2 htarget⟩
    exact List.ne_nil_of_mem (List.mem_map_of_mem hmem)
  · obtain ⟨i, rest, rfl⟩ := List.exists_cons_of_ne_nil hinserted
    rw [h.queue, Inserted.merge] at hqueue
    exact List.append_ne_nil_of_right_ne_nil _ (List.cons_ne_nil _ _) hqueue

variable {takes : Nat → Prop}

/-- Both worlds are one world with two offsets. -/
theorem exists_pasts (h : Resembles p our own refusals inserted w w')
    (hp : p < w.parties.slots.length)
    (htakes : ∀ q, takes q → (w.party q).endpoint ∉ differing own refusals inserted)
    (hwaits : ∀ c, w.Waits c → ∀ q, c.taker? = some q → takes q) :
    ∃ v x x', LogOffset.Follows takes x v w ∧ LogOffset.Follows takes x' v w' ∧ x.party = p ∧
      x'.party = p ∧
      Woven (refusals.map Refusal.event) x.events x'.events ∧
      (∀ id, id ≠ own → Woven (stopsAt our refusals id) (x.queue id) (x'.queue id)) ∧
      Inserted.span inserted ≤ (x.queue own).length ∧
      x'.queue own = Inserted.merge inserted (x.queue own) := by
  let ids := differing own refusals inserted
  have hids : ∀ id ∈ ids, id < w.network.endpoints.slots.length := fun id => h.differing_lt
  refine ⟨w.forget p ids, w.logOffset p ids, w'.logOffset p ids,
    ⟨(World.logOffset_on_forget w p ids).symm, World.fits_logOffset hp hids htakes hwaits⟩,
    ⟨h.forget_eq ▸ (World.logOffset_on_forget w' p ids).symm,
      h.forget_eq ▸ World.fits_logOffset ?_ ?_ ?_ ?_⟩,
    rfl, rfl, h.events, fun id hid => ?_, ?_⟩
  · rwa [h.parties_length]
  · rwa [h.endpoints_length]
  · intro q hq
    rw [h.party q]
    exact htakes q hq
  · intro c hc
    refine hwaits c ?_
    unfold World.Waits at hc ⊢
    rwa [h.surfaces, h.scripts] at hc
  · simp only [World.logOffset]
    by_cases hmem : id ∈ ids
    · rw [if_pos hmem, if_pos hmem]
      exact h.queue_of_ne id hid
    · rw [if_neg hmem, if_neg hmem,
        stopsAt_eq_nil fun htarget => hmem (mem_differing.2 (.inl ⟨htarget, hid⟩))]
      exact .nil
  · simp only [World.logOffset]
    by_cases hmem : own ∈ ids
    · rw [if_pos hmem, if_pos hmem]
      exact ⟨h.span_le, h.queue⟩
    · rw [if_neg hmem, if_neg hmem]
      have hnone : inserted = [] := by
        by_contra hinserted
        exact hmem (mem_differing.2 (.inr ⟨rfl, hinserted⟩))
      rw [hnone]
      exact ⟨Nat.zero_le _, rfl⟩

/-- What comes to the same whatever went before, comes to the same in both worlds. -/
theorem lift (h : Resembles p our own refusals inserted w w') (hp : p < w.parties.slots.length)
    (htakes : ∀ q, takes q → (w.party q).endpoint ∉ differing own refusals inserted)
    (hwaits : ∀ c, w.Waits c → ∀ q, c.taker? = some q → takes q)
    {α : Type} {f : World → Except Fault (α × World)}
    (hf : ∀ {x v v'}, Offset.Follows takes x v v' → Lifts (Offset.Answers takes x Eq) (f v) (f v'))
    {a : α} {w₁ : World} (hrun : f w = .ok (a, w₁)) (hsteps : WorldSteps w w₁) :
    ∃ w₁', f w' = .ok (a, w₁') ∧ Resembles p our own refusals inserted w₁ w₁' ∧
      ∀ c, w₁.Waits c → ∀ q, c.taker? = some q → takes q := by
  obtain ⟨v, x, x', hv, hv', rfl, hparty, hevents, hne, hspan, hown⟩ :=
    h.exists_pasts hp htakes hwaits
  have hfirst := hf hv.offset
  have hsecond := hf hv'.offset
  rw [hrun] at hfirst
  generalize f v = r at hfirst hsecond
  generalize f w' = r' at hsecond ⊢
  cases hfirst with
  | ok hfirst =>
      obtain ⟨rfl, hfollows⟩ := hfirst
      cases hsecond with
      | ok hsecond =>
          obtain ⟨rfl, hfollows'⟩ := hsecond
          have hlt := Nat.lt_of_lt_of_le hp hsteps.parties_length_le
          rw [hfollows.eq, Offset.on, Table.length_adjust] at hlt
          obtain ⟨rfl, hfits⟩ := LogOffset.Follows.of_offset hfollows hlt
          obtain ⟨rfl, hfits'⟩ := LogOffset.Follows.of_offset hfollows' (hparty ▸ hlt)
          exact ⟨_, rfl, LogOffset.resembles hparty hfits hfits' hevents hne hspan hown,
            hfits.waiting⟩

/-- Both worlds are alike in what they do not differ in. -/
theorem apply_eq {α : Type} {f : World → α} (hf : ∀ (x : LogOffset) v, f (x.on v) = f v)
    (h : Resembles p our own refusals inserted w w') : f w' = f w := by
  rw [← World.logOffset_on_forget w p (differing own refusals inserted),
    ← World.logOffset_on_forget w' p (differing own refusals inserted), h.forget_eq, hf, hf]

theorem sendTarget_eq (h : Resembles p our own refusals inserted w w') (peer : PeerId) :
    w'.sendTarget p peer .stop = w.sendTarget p peer .stop :=
  h.apply_eq (f := fun v => v.sendTarget p peer .stop) fun x v => by
    simp only [World.sendTarget, LogOffset.limits_on, LogOffset.route_on]

theorem refusals_eq (h : Resembles p our own refusals inserted w w') (a : Arrival) :
    w'.refusals p a = w.refusals p a :=
  h.apply_eq (f := fun v => v.refusals p a) fun x v => by
    simp only [World.refusals, World.sendTarget, LogOffset.limits_on, LogOffset.route_on,
      LogOffset.identity_on]

/-! ### One arrival of an outsider -/

/-- One more offer is refused. -/
theorem refuse (h : Resembles p our own refusals inserted w w') (hp : p < w.parties.slots.length)
    (hour : w.identity p = our) {sender : PeerId} {r : Refusal}
    (hr : r = ⟨sender, w.sendTarget p sender .stop⟩) :
    Resembles p our own (refusals ++ [r])
      (Inserted.enqueue (w.network.endpoint own).queue.length inserted (stopsAt our [r] own)) w
      (w'.refuse p sender) := by
  have hidentity : w'.identity p = our := by
    rw [h.apply_eq (f := fun v => v.identity p) fun x v => LogOffset.identity_on x v p, hour]
  obtain ⟨network, hrefuse⟩ := w'.refuse_eq p sender
  have hlength : (w'.refuse p sender).parties.slots.length = w'.parties.slots.length := by
    rw [hrefuse, World.emit, World.modifyParty, Table.length_modify, h.parties_length]
    omega
  have hstop : ∀ id, stopsAt our [r] id = if w.sendTarget p sender .stop = some id then
      [.message our Message.stop.payload] else [] := by
    intro id
    by_cases hid : w.sendTarget p sender .stop = some id
    · simp [hr, stopsAt, hid]
    · simp [hr, stopsAt, hid]
  have hstops : ∀ id, stopsAt our (refusals ++ [r]) id =
      stopsAt our refusals id ++ stopsAt our [r] id := by
    intro id
    rw [stopsAt, List.filter_append, List.map_append, stopsAt, stopsAt]
  have hqueue : ∀ id, ((w'.refuse p sender).network.endpoint id).queue =
      (w'.network.endpoint id).queue ++ stopsAt our [r] id := by
    intro id
    rw [World.endpoint_refuse, hidentity, h.sendTarget_eq, hstop]
  exact {
    surfaces := by rw [hrefuse]; exact h.surfaces
    scripts := by rw [hrefuse]; exact h.scripts
    underway := by rw [hrefuse]; exact h.underway
    log := by rw [hrefuse]; exact h.log
    parties_length := hlength.trans h.parties_length
    party := fun q => by rw [World.party_refuse, h.party q]
    events_of_ne := fun q hq => by simp [World.party_refuse, hq, h.events_of_ne q hq]
    events := by
      simpa [World.party_refuse, Refusal.event, hr] using h.events.concat_extra (.refused sender)
    endpoints_length := (World.length_refuse ..).trans h.endpoints_length
    endpoint := fun id => by rw [World.endpoint_refuse, h.endpoint id]
    queue_of_ne := fun id hid => by
      rw [hqueue, hstops, hstop]
      split
      · exact (h.queue_of_ne id hid).concat_extra _
      · simpa using h.queue_of_ne id hid
    span_le := Inserted.span_enqueue h.span_le _
    queue := by rw [hqueue, h.queue, Inserted.merge_enqueue h.span_le] }

/-- What arrives from an outsider is handled in the second world alone.  A stop for the party
itself is the next to be inserted. -/
theorem handleArrival (h : Resembles p our own refusals inserted w w') (hour : w.identity p = our)
    (hfree : (w.party p).writing = false) (hother : (w.phase p).other = some peer) {a : Arrival}
    (hsource : a.source ≠ peer) (write : Writer) :
    ∃ result w'', w'.handleArrival write p a = .ok (result, w'') ∧
      Resembles p our own (refusals ++ w.refusals p a)
        (Inserted.enqueue (w.network.endpoint own).queue.length inserted
          (stopsAt our (w.refusals p a) own)) w w'' := by
  have hphase : w'.phase p = w.phase p :=
    h.apply_eq (f := fun v => v.phase p) fun x v => LogOffset.phase_on x v p
  have hwriting : (w'.party p).writing = (w.party p).writing :=
    h.apply_eq (f := fun v => (v.party p).writing) fun x v => LogOffset.writing_on x v p
  obtain ⟨result, hresult⟩ :=
    World.handleArrival_of_other write (hphase ▸ hother) (hwriting ▸ hfree) hsource
  refine ⟨result, _, hresult, ?_⟩
  rw [h.refusals_eq]
  rcases w.refusals_eq p a with hnone | hone
  · rw [hnone, List.append_nil]
    exact h
  · rw [hone]
    exact h.refuse (World.lt_length_of_other hother) hour rfl

/-! ### What is queued -/

/-- The queue of the party changes in both worlds. -/
theorem mapQueue (h : Resembles p our own refusals inserted w w')
    (f g : List Arrival → List Arrival)
    (hspan : Inserted.span rest ≤ (f (w.network.endpoint own).queue).length)
    (hmerge : g (w'.network.endpoint own).queue =
      Inserted.merge rest (f (w.network.endpoint own).queue)) :
    Resembles p our own refusals rest (w.mapQueue own f) (w'.mapQueue own g) where
  surfaces := h.surfaces
  scripts := h.scripts
  underway := h.underway
  log := h.log
  parties_length := h.parties_length
  party := h.party
  events_of_ne := h.events_of_ne
  events := h.events
  endpoints_length := by rw [World.length_mapQueue, World.length_mapQueue, h.endpoints_length]
  endpoint id := by
    rw [World.endpoint_mapQueue, World.endpoint_mapQueue, h.endpoint id]
    split <;> rfl
  queue_of_ne id hid := by
    rw [World.endpoint_mapQueue, World.endpoint_mapQueue, if_neg hid, if_neg hid]
    exact h.queue_of_ne id hid
  span_le := by rwa [World.endpoint_mapQueue, if_pos rfl]
  queue := by
    rw [World.endpoint_mapQueue, World.endpoint_mapQueue, if_pos rfl, if_pos rfl]
    exact hmerge

/-- The same arrives in both worlds. -/
theorem arrive (h : Resembles p our own refusals inserted w w') (id : Nat) (a : Arrival) :
    Resembles p our own refusals inserted (w.arrive id a) (w'.arrive id a) := by
  by_cases hid : id = own
  · subst hid
    refine h.mapQueue (· ++ [a]) (· ++ [a]) ?_ ?_
    · exact Nat.le_trans h.span_le (List.length_append ▸ Nat.le_add_right ..)
    · rw [h.queue, Inserted.merge_append h.span_le]
  · have hendpoint : ∀ v : World, ∀ j, (v.arrive id a).network.endpoint j =
        if j = id then { v.network.endpoint j with queue := (v.network.endpoint j).queue ++ [a] }
        else v.network.endpoint j :=
      fun v => v.endpoint_mapQueue id (· ++ [a])
    exact {
      surfaces := h.surfaces
      scripts := h.scripts
      underway := h.underway
      log := h.log
      parties_length := h.parties_length
      party := h.party
      events_of_ne := h.events_of_ne
      events := h.events
      endpoints_length := by
        have hlength : ∀ v : World, (v.arrive id a).network.endpoints.slots.length =
            max v.network.endpoints.slots.length (id + 1) :=
          fun v => v.length_mapQueue id (· ++ [a])
        rw [hlength, hlength, h.endpoints_length]
      endpoint := fun j => by
        rw [hendpoint, hendpoint, h.endpoint j]
        split <;> rfl
      queue_of_ne := fun j hj => by
        rw [hendpoint, hendpoint]
        split
        · exact (h.queue_of_ne j hj).append_right _
        · exact h.queue_of_ne j hj
      span_le := by
        rw [hendpoint, if_neg (Ne.symm hid)]
        exact h.span_le
      queue := by
        rw [hendpoint, hendpoint, if_neg (Ne.symm hid), if_neg (Ne.symm hid)]
        exact h.queue }

/-- Something arrives for the party in the second world alone. -/
theorem enqueue (h : Resembles p our own refusals inserted w w')
    (hown : own < w.network.endpoints.slots.length) (a : Arrival) :
    Resembles p our own refusals
      (Inserted.enqueue (w.network.endpoint own).queue.length inserted [a]) w
      (w'.arrive own a) := by
  have hnext := h.mapQueue (fun queue => queue) (· ++ [a]) (Inserted.span_enqueue h.span_le [a])
    (by rw [h.queue, Inserted.merge_enqueue h.span_le])
  rwa [World.mapQueue_id hown] at hnext

/-- An inserted arrival that is the first in the queue is taken from it. -/
theorem take_due (h : Resembles p our own refusals inserted w w') {a : Arrival}
    (hdue : Inserted.due? inserted = some (a, rest)) :
    ∃ queue, (w'.network.endpoint own).queue = a :: queue ∧
      Resembles p our own refusals rest w (w'.mapQueue own fun _ => queue) := by
  have hqueue := h.queue
  rw [Inserted.merge_of_due hdue] at hqueue
  have hown : own < w.network.endpoints.slots.length := by
    refine h.differing_lt (mem_differing.2 (.inr ⟨rfl, ?_⟩))
    rw [Inserted.of_due? hdue]
    exact List.cons_ne_nil _ _
  refine ⟨_, hqueue, ?_⟩
  have hnext := h.mapQueue (fun queue => queue) (fun _ => _)
    (Inserted.span_of_due hdue ▸ h.span_le) rfl
  rwa [World.mapQueue_id hown] at hnext

/-- If no inserted arrival comes first, the same is taken from both queues. -/
theorem take (h : Resembles p our own refusals inserted w w')
    (hdue : Inserted.due? inserted = none) {a : Arrival} {queue : List Arrival}
    (hqueue : (w.network.endpoint own).queue = a :: queue) :
    ∃ queue', (w'.network.endpoint own).queue = a :: queue' ∧
      Resembles p our own refusals (Inserted.skip inserted) (w.mapQueue own fun _ => queue)
        (w'.mapQueue own fun _ => queue') := by
  refine ⟨Inserted.merge (Inserted.skip inserted) queue, ?_, ?_⟩
  · rw [h.queue, hqueue, Inserted.merge_skip hdue]
  · refine h.mapQueue (fun _ => queue) _ (Inserted.span_skip hdue ?_) rfl
    have hspan := h.span_le
    rwa [hqueue] at hspan

end Resembles

end PairEdit.Session
