import Mathlib.Algebra.BigOperators.Group.Finset.Piecewise
import Mathlib.Algebra.Order.BigOperators.Ring.Finset
import PairEdit.Proofs.Replies

/-!
# What is queued runs out

An arrival is answered with one `Stop` at most, and a `Stop` with nothing.  So whoever handles
what is queued, and in whatever order, handles at most twice as many arrivals as were queued when
nobody else did anything any more, and then all the queues are empty.
-/

namespace PairEdit

/-- How many arrivals an arrival may lead to, counting itself. -/
def Arrival.weight : Arrival → Nat
  | .message _ payload => if payload = Message.stop.payload then 1 else 2
  | .disconnected _ => 2

theorem Arrival.weight_le (a : Arrival) : a.weight ≤ 2 := by
  unfold weight
  split
  · split <;> decide
  · exact Nat.le_refl 2

theorem Arrival.one_le_weight (a : Arrival) : 1 ≤ a.weight := by
  unfold weight
  split
  · split <;> decide
  · decide

theorem Arrival.fruitless_of_weight_le_one {limits : Limits} {a : Arrival} (h : a.weight ≤ 1) :
    a.Fruitless limits := by
  cases a with
  | disconnected peer => exact absurd h (by decide : ¬ 2 ≤ 1)
  | message sender payload =>
      by_cases hpayload : payload = Message.stop.payload
      · rw [hpayload]
        exact fruitless_stop limits sender
      · simp [weight, hpayload] at h

/-- What is queued at these endpoints may lead to so many arrivals. -/
def Network.load (n : Network) (ids : Finset Nat) : Nat :=
  ∑ id ∈ ids, ((n.endpoint id).queue.map Arrival.weight).sum

/-- How many arrivals are queued at these endpoints. -/
def Network.queued (n : Network) (ids : Finset Nat) : Nat :=
  ∑ id ∈ ids, (n.endpoint id).queue.length

theorem Network.load_le (n : Network) (ids : Finset Nat) : n.load ids ≤ 2 * n.queued ids := by
  rw [load, queued, Finset.mul_sum]
  refine Finset.sum_le_sum fun id _ => ?_
  generalize (n.endpoint id).queue = arrivals
  induction arrivals with
  | nil => exact Nat.le_refl 0
  | cons a rest ih =>
      have hweight := a.weight_le
      rw [List.map_cons, List.sum_cons, List.length_cons]
      omega

/-- The oldest arrival at an endpoint is taken, and a `Stop` arrives at the target. -/
theorem Network.load_add_weight {n n' : Network} {ids : Finset Nat} {id : Nat} (hid : id ∈ ids)
    {a : Arrival} {rest : List Arrival} (hqueue : (n.endpoint id).queue = a :: rest)
    {target : Option Nat} {sender : PeerId}
    (h : ∀ j, (n'.endpoint j).queue = (if j = id then rest else (n.endpoint j).queue) ++
      if target = some j then [.message sender Message.stop.payload] else []) :
    n'.load ids + a.weight = n.load ids + ∑ j ∈ ids, if target = some j then 1 else 0 := by
  have hone : ∀ j, ((n'.endpoint j).queue.map Arrival.weight).sum +
      (if j = id then a.weight else 0) = ((n.endpoint j).queue.map Arrival.weight).sum +
        if target = some j then 1 else 0 := by
    intro j
    have hstop : ((if target = some j then [Arrival.message sender Message.stop.payload]
        else []).map Arrival.weight).sum = if target = some j then 1 else 0 := by
      split
      · simp [Arrival.weight]
      · rfl
    rw [h, List.map_append, List.sum_append, hstop]
    by_cases hj : j = id
    · subst hj
      rw [if_pos rfl, if_pos rfl, hqueue, List.map_cons, List.sum_cons]
      omega
    · rw [if_neg hj, if_neg hj, Nat.add_zero]
  have hsum := Finset.sum_congr rfl fun j (_ : j ∈ ids) => hone j
  rw [Finset.sum_add_distrib, Finset.sum_add_distrib, Finset.sum_ite_eq' ids id, if_pos hid] at hsum
  exact hsum

/-- Then less is queued than before, if a `Stop` is not answered. -/
theorem Network.load_lt {n n' : Network} {ids : Finset Nat} {id : Nat} (hid : id ∈ ids)
    {a : Arrival} {rest : List Arrival} (hqueue : (n.endpoint id).queue = a :: rest)
    {target : Option Nat} {sender : PeerId}
    (h : ∀ j, (n'.endpoint j).queue = (if j = id then rest else (n.endpoint j).queue) ++
      if target = some j then [.message sender Message.stop.payload] else [])
    (htarget : a.weight ≤ 1 → target = none) : n'.load ids < n.load ids := by
  have hload := load_add_weight hid hqueue h
  have hsent : (∑ j ∈ ids, if target = some j then 1 else 0) ≤ 1 := by
    cases target with
    | none => simp
    | some t =>
        simp only [Option.some.injEq]
        rw [Finset.sum_ite_eq]
        split <;> decide
  have hweight := a.one_le_weight
  by_cases hlight : a.weight ≤ 1
  · rw [htarget hlight] at hload
    simp only [reduceCtorEq, if_false, Finset.sum_const_zero] at hload
    omega
  · omega

namespace Session

open World

variable {w w' : World} {p q depth : Nat} {target : Option Nat} {a : Arrival}
  {parties : List Nat} {n : Nat}

namespace World

/-- The endpoints of some parties. -/
def endpointsOf (w : World) (parties : List Nat) : Finset Nat :=
  (parties.map fun p => (w.party p).endpoint).toFinset

/-- How many arrivals are queued for some parties altogether. -/
def queued (w : World) (parties : List Nat) : Nat := w.network.queued (w.endpointsOf parties)

/-- How many characters the updates insert that are queued for a party. -/
def charsQueued (w : World) (p : Nat) : Nat :=
  ((w.mailbox p).map (Arrival.insertedChars (w.limits p))).sum

/-- No number will be too small while so many arrivals are handled as may be. -/
def HasRoom (w : World) (parties : List Nat) : Prop :=
  ∀ p ∈ parties, (w.phase p).HasRoom (2 * w.queued parties) (w.charsQueued p)

instance (w : World) (parties : List Nat) : Decidable (w.HasRoom parties) :=
  inferInstanceAs (Decidable (∀ p ∈ parties, _))

theorem mem_endpointsOf (w : World) (hp : p ∈ parties) :
    (w.party p).endpoint ∈ w.endpointsOf parties :=
  List.mem_toFinset.2 (List.mem_map_of_mem hp)

end World

/-! ## One arrival -/

namespace World.Peaceful

theorem setMailbox (h : w.Peaceful) {rest : List Arrival} (hmailbox : w.mailbox p = a :: rest) :
    (w.setMailbox p rest).Peaceful where
  arises := by
    have hreceive := h.arises.worldSteps (.single (.receive w p))
    rwa [receive_of_cons hmailbox] at hreceive
  writing := h.writing
  waits := h.waits
  eq_of_document := h.eq_of_document

theorem of_answer (h : w.Peaceful) (hsteps : WorldSteps w w') (hanswer : Answer p a target w w') :
    w'.Peaceful where
  arises := h.arises.worldSteps hsteps
  writing q := (hsteps.writing_eq q).trans (h.writing q)
  waits c hc := h.waits c (hanswer.waits c hc)
  eq_of_document q r d hq hr :=
    h.eq_of_document q r d (hanswer.document q d hq) (hanswer.document r d hr)

/-- Handling the oldest arrival is taking it and answering it. -/
theorem exists_answer_of_handleNext (h : w.Peaceful) {result : Except ShareError Unit}
    (hnext : w.handleNext (World.write depth) p = .ok (.ok (some result), w')) :
    ∃ a rest target, w.mailbox p = a :: rest ∧ (w.setMailbox p rest).Peaceful ∧ w'.Peaceful ∧
      Answer p a target (w.setMailbox p rest) w' := by
  unfold World.handleNext at hnext
  cases hmailbox : w.mailbox p with
  | nil =>
      rw [receive_of_nil hmailbox] at hnext
      split at hnext
      · next hreceive =>
          split at hreceive <;> cases hreceive
          cases hnext
      · cases hnext
      · next hreceive => split at hreceive <;> cases hreceive
  | cons a rest =>
      rw [receive_of_cons hmailbox] at hnext
      obtain ⟨⟨_, v⟩, harrival, hnext⟩ := bind_eq_ok_iff.1 hnext
      cases hnext
      have htaken := h.setMailbox hmailbox
      obtain ⟨target, hanswer⟩ := htaken.answer harrival
      have hsteps := worldSteps_handleArrival (worldSteps_write depth) harrival
      exact ⟨a, rest, target, rfl, htaken, htaken.of_answer hsteps hanswer, hanswer⟩

end World.Peaceful

/-! ## One after another -/

/-- At most so many arrivals will be handled for these parties, and no number is too small. -/
structure World.Exhaustible (parties : List Nat) (n : Nat) (w : World) : Prop where
  peaceful : w.Peaceful
  load_le : w.network.load (w.endpointsOf parties) ≤ n
  room : ∀ p ∈ parties, (w.phase p).HasRoom n (w.charsQueued p)

/-- Some of these parties handle so many arrivals, one after another and in any order. -/
inductive World.Handles (parties : List Nat) : Nat → World → World → Prop where
  | none (w : World) : Handles parties 0 w w
  | next {w v w' : World} {n p depth : Nat} {result : Except ShareError Unit} (hp : p ∈ parties)
      (hnext : w.handleNext (World.write depth) p = .ok (.ok (some result), v))
      (h : Handles parties n v w') : Handles parties (n + 1) w w'

theorem World.endpointsOf_eq (h : WorldSteps w w') (parties : List Nat) :
    w'.endpointsOf parties = w.endpointsOf parties := by
  unfold endpointsOf
  congr 1
  exact List.map_congr_left fun p _ => h.endpoint_eq p

namespace World.Exhaustible

/-- Of what is left the characters count that the party had not taken. -/
theorem charsQueued_eq (hsteps : WorldSteps w w') {rest : List Arrival}
    (hanswer : Answer p a target (w.setMailbox p rest) w') (q : Nat) :
    w'.charsQueued q =
      (((if (w.party q).endpoint = (w.party p).endpoint then rest else w.mailbox q).map
        (Arrival.insertedChars (w.limits q))).sum) := by
  have hstop : ((if target = some (w.party q).endpoint then
      [Arrival.message ((w.setMailbox p rest).identity p) Message.stop.payload] else []).map
        (Arrival.insertedChars (w.limits q))).sum = 0 := by
    split
    · rw [List.map_singleton, List.sum_singleton,
        (Arrival.fruitless_stop (w.limits q) _).insertedChars_eq]
    · rfl
  rw [charsQueued, mailbox, hsteps.endpoint_eq, hsteps.limits_eq, hanswer.queue,
    queue_setMailbox, List.map_append, List.sum_append, hstop, Nat.add_zero]
  rfl

/-- After an arrival was handled, one fewer will be. -/
theorem handleNext (h : w.Exhaustible parties n) (hp : p ∈ parties)
    {result : Except ShareError Unit}
    (hnext : w.handleNext (World.write depth) p = .ok (.ok (some result), w')) :
    ∃ m, n = m + 1 ∧ w'.Exhaustible parties m := by
  have hsteps := worldSteps_handleNext (worldSteps_write depth) hnext
  obtain ⟨a, rest, target, hmailbox, -, hpeaceful, hanswer⟩ :=
    h.peaceful.exists_answer_of_handleNext hnext
  have hload : w'.network.load (w.endpointsOf parties) <
      w.network.load (w.endpointsOf parties) := by
    refine Network.load_lt (w.mem_endpointsOf hp) hmailbox
      (fun id => by rw [hanswer.queue, queue_setMailbox]) fun hweight => ?_
    exact hanswer.target_eq_none (Arrival.fruitless_of_weight_le_one hweight)
  have hle := h.load_le
  obtain ⟨m, rfl⟩ : ∃ m, n = m + 1 := ⟨n - 1, by omega⟩
  refine ⟨m, rfl, hpeaceful, by rw [endpointsOf_eq hsteps]; omega, fun q hq => ?_⟩
  have hroom := h.room q hq
  have hchars := charsQueued_eq hsteps hanswer q
  by_cases hqp : q = p
  · subst hqp
    refine hanswer.room m _ ?_
    rw [if_pos rfl] at hchars
    rw [hchars]
    rw [charsQueued, hmailbox, List.map_cons, List.sum_cons,
      Nat.add_comm (a.insertedChars _)] at hroom
    exact hroom
  · refine hanswer.room_of_ne q hqp m _ (hroom.mono (Nat.le_succ m) ?_)
    rw [hchars]
    split
    · next hsame =>
        rw [charsQueued, mailbox, hsame]
        have hqueue : (w.network.endpoint (w.party p).endpoint).queue = a :: rest := hmailbox
        rw [hqueue, List.map_cons, List.sum_cons]
        exact Nat.le_add_left ..
    · exact Nat.le_refl _

/-- Whoever has something queued can handle it. -/
theorem exists_handleNext (h : w.Exhaustible parties n) (hp : p ∈ parties)
    (hmailbox : w.mailbox p ≠ []) (depth : Nat) :
    ∃ result w', w.handleNext (World.write depth) p = .ok (.ok (some result), w') := by
  obtain ⟨a, rest, hcons⟩ := List.exists_cons_of_ne_nil hmailbox
  have hroom := h.room p hp
  rw [charsQueued, hcons, List.map_cons, List.sum_cons, Nat.add_comm] at hroom
  have hpos : 1 ≤ n := by
    refine Nat.le_trans ?_ h.load_le
    have hweight : 1 ≤ a.weight := a.one_le_weight
    have hqueue : (w.network.endpoint (w.party p).endpoint).queue = a :: rest := hcons
    refine Nat.le_trans ?_ (Finset.single_le_sum (fun _ _ => Nat.zero_le _)
      (w.mem_endpointsOf hp))
    rw [hqueue, List.map_cons, List.sum_cons]
    omega
  obtain ⟨m, rfl⟩ : ∃ m, n = m + 1 := ⟨n - 1, by omega⟩
  obtain ⟨result, w', harrival⟩ :=
    (h.peaceful.setMailbox hcons).exists_handleArrival (p := p) (a := a) hroom depth
  refine ⟨result, w', ?_⟩
  unfold World.handleNext
  rw [receive_of_cons hcons]
  exact bind_eq_ok_iff.2 ⟨_, harrival, rfl⟩

theorem isDetached_of_handleNext (h : w.Peaceful) {result : Except ShareError Unit}
    (hnext : w.handleNext (World.write depth) p = .ok (.ok (some result), w')) (q : Nat) :
    w'.IsDetached q ↔ w.IsDetached q := by
  have hsteps := worldSteps_handleNext (worldSteps_write depth) hnext
  obtain ⟨a, rest, target, -, -, -, hanswer⟩ := h.exists_answer_of_handleNext hnext
  have htaken := attached_modify w.network (fun e => { e with queue := rest }) (fun _ => rfl)
    (w.party p).endpoint (w.party q).endpoint
  rw [IsDetached, IsDetached, hsteps.endpoint_eq, hanswer.attached]
  exact iff_of_eq (congrArg (· = false) htaken)

/-- However many arrivals were handled, the others are still to come. -/
theorem handles {k : Nat} (h : w.Exhaustible parties n) (hhandles : Handles parties k w w') :
    ∃ m, n = m + k ∧ w'.Exhaustible parties m := by
  induction hhandles generalizing n with
  | none => exact ⟨n, rfl, h⟩
  | next hp hnext _ ih =>
      obtain ⟨m, rfl, hv⟩ := h.handleNext hp hnext
      obtain ⟨m', rfl, hw'⟩ := ih hv
      exact ⟨m', rfl, hw'⟩

theorem isDetached_of_handles {k : Nat} (h : w.Exhaustible parties n)
    (hhandles : Handles parties k w w') (q : Nat) : w'.IsDetached q ↔ w.IsDetached q := by
  induction hhandles generalizing n with
  | none => rfl
  | next hp hnext _ ih =>
      obtain ⟨m, rfl, hv⟩ := h.handleNext hp hnext
      exact (ih hv).trans (isDetached_of_handleNext h.peaceful hnext q)

/-! ### Pumping -/

/-- To pump a party is to handle what is queued for it, until nothing is.  Only a closed endpoint
keeps it from telling how much that was. -/
theorem exists_pumpFrom (h : w.Exhaustible parties n) (hp : p ∈ parties) {fuel : Nat}
    (hfuel : n < fuel) (depth handled : Nat) :
    ∃ result w' k, pumpFrom (World.write depth) p handled fuel w = .ok (result, w') ∧
      Handles parties k w w' ∧ w'.mailbox p = [] ∧
      (result = .ok (handled + k) ∨ ∃ reason, result = .error reason ∧ w.IsDetached p) := by
  induction fuel generalizing w n handled with
  | zero => exact absurd hfuel (Nat.not_lt_zero n)
  | succ fuel ih =>
      by_cases hmailbox : w.mailbox p = []
      · cases hattached : (w.network.endpoint (w.party p).endpoint).attached with
        | true =>
            refine ⟨_, w, 0, ?_, .none w, hmailbox, .inl rfl⟩
            simp only [pumpFrom, World.handleNext, receive_of_nil hmailbox, hattached]
            rfl
        | false =>
            refine ⟨.error (.sync .channelClosed), w, 0, ?_, .none w, hmailbox,
              .inr ⟨_, rfl, hattached⟩⟩
            simp only [pumpFrom, World.handleNext, receive_of_nil hmailbox, hattached]
            rfl
      · obtain ⟨outcome, v, hnext⟩ := h.exists_handleNext hp hmailbox depth
        obtain ⟨m, rfl, hv⟩ := h.handleNext hp hnext
        obtain ⟨result, w', k, hpump, hhandles, hempty, hresult⟩ :=
          ih hv (by omega) (handled + 1)
        refine ⟨result, w', k + 1, bind_eq_ok_iff.2 ⟨_, hnext, hpump⟩,
          .next hp hnext hhandles, hempty, ?_⟩
        rwa [Nat.add_assoc, Nat.add_comm 1 k,
          isDetached_of_handleNext h.peaceful hnext p] at hresult

end World.Exhaustible

theorem World.Handles.trans {k m : Nat} {v : World} (h : Handles parties k w v)
    (h' : Handles parties m v w') : Handles parties (m + k) w w' := by
  induction h with
  | none => exact h'
  | next hp hnext _ ih => exact .next hp hnext (ih h')

theorem World.Handles.eq_of_zero (h : Handles parties 0 w w') : w' = w := by
  cases h
  rfl

namespace World.Exhaustible

/-- A round of pumping comes to its end.  When all endpoints are attached its count is right, and
it is zero only if nothing was queued. -/
theorem exists_pumpRound (h : w.Exhaustible parties n) (hwords : n ≤ Word.max)
    {order : List Nat} (horder : ∀ p ∈ order, p ∈ parties) :
    ∃ count w' k, w.pumpRound order = .ok (count, w') ∧ Handles parties k w w' ∧ count ≤ k ∧
      ((∀ p ∈ order, ¬ w.IsDetached p) → count = k ∧ (k = 0 → ∀ p ∈ order, w'.mailbox p = [])) := by
  induction order generalizing w n with
  | nil => exact ⟨0, w, 0, rfl, .none w, Nat.le_refl 0, fun _ => ⟨rfl, nofun⟩⟩
  | cons p rest ih =>
      have hp := horder p List.mem_cons_self
      have hfuel : n < Word.count := Nat.lt_of_le_of_lt hwords (by decide)
      obtain ⟨result, v, k, hpump, hhandles, hempty, hresult⟩ :=
        h.exists_pumpFrom hp hfuel w.pendingReactions 0
      have hrun : w.run (.pump p) = .ok (.pumped result, v) :=
        bind_eq_ok_iff.2 ⟨_, hpump, rfl⟩
      obtain ⟨m, rfl, hv⟩ := h.handles hhandles
      obtain ⟨count, w', k', hround, hrest, hcount, hattached⟩ :=
        ih hv (by omega) fun q hq => horder q (List.mem_cons_of_mem _ hq)
      have hboth := hhandles.trans hrest
      obtain rfl | ⟨reason, rfl, hdetached⟩ := hresult
      · rw [Nat.zero_add] at hrun
        refine ⟨k + count, w', k' + k, ?_, hboth, by omega, fun hall => ?_⟩
        · rw [pumpRound]
          exact bind_eq_ok_iff.2 ⟨_, hrun, bind_eq_ok_iff.2 ⟨_, hround, rfl⟩⟩
        · obtain ⟨hexact, hrested⟩ := hattached fun q hq => by
            rw [h.isDetached_of_handles hhandles]
            exact hall q (List.mem_cons_of_mem _ hq)
          refine ⟨by omega, fun hzero q hq => ?_⟩
          obtain ⟨rfl, rfl⟩ : k' = 0 ∧ k = 0 := by omega
          obtain rfl | hq := List.mem_cons.1 hq
          · rw [hrest.eq_of_zero]
            exact hempty
          · exact hrested rfl q hq
      · refine ⟨count, w', k' + k, ?_, hboth, by omega, fun hall => ?_⟩
        · rw [pumpRound]
          exact bind_eq_ok_iff.2 ⟨_, hrun, hround⟩
        · exact absurd hdetached (hall p List.mem_cons_self)

/-- The rounds of pumping come to an end. -/
theorem exists_pumpRounds (h : w.Exhaustible parties n) (hwords : n ≤ Word.max) {fuel : Nat}
    (hfuel : n < fuel) (handled : Nat) :
    ∃ count w', pumpRounds parties handled fuel w = .ok (handled + count, w') ∧ count ≤ n ∧
      ((∀ p ∈ parties, ¬ w.IsDetached p) → ∀ p ∈ parties, w'.mailbox p = []) := by
  induction fuel generalizing w n handled with
  | zero => exact absurd hfuel (Nat.not_lt_zero n)
  | succ fuel ih =>
      obtain ⟨count, v, k, hround, hhandles, hcount, hattached⟩ :=
        h.exists_pumpRound hwords fun p hp => hp
      obtain ⟨m, rfl, hv⟩ := h.handles hhandles
      by_cases hzero : count = 0
      · refine ⟨0, v, ?_, Nat.zero_le _, fun hall => ?_⟩
        · rw [pumpRounds]
          exact bind_eq_ok_iff.2 ⟨_, hround, if_pos hzero⟩
        · obtain ⟨hexact, hempty⟩ := hattached hall
          exact hempty (hexact ▸ hzero)
      · obtain ⟨more, w', hrest, hmore, hempty⟩ :=
          ih hv (by omega) (by omega) (handled + count)
        refine ⟨count + more, w', ?_, by omega, fun hall => hempty fun p hp => ?_⟩
        · rw [pumpRounds, ← Nat.add_assoc]
          exact bind_eq_ok_iff.2 ⟨_, hround, (if_neg hzero).trans hrest⟩
        · rw [h.isDetached_of_handles hhandles]
          exact hall p hp

end World.Exhaustible

/-! ## The whole run -/

/-- An arrival is answered with one message at most, which is a `Stop`, and a `Stop` or bytes that
are no message with none.  So at most twice as many arrivals are handled as were queued, whoever
handles them and in whatever order; while something is queued it can be handled; and pumping the
parties in rounds comes to its end, with nothing left in their queues if their endpoints are
attached. -/
theorem arrivals_run_out (h : w.Peaceful) :
    (∀ p depth result w', w.handleNext (World.write depth) p = .ok (.ok (some result), w') →
      ∃ a rest target, w.mailbox p = a :: rest ∧
        (∀ id, (w'.network.endpoint id).queue =
          (if id = (w.party p).endpoint then rest else (w.network.endpoint id).queue) ++
            if target = some id then [.message (w.identity p) Message.stop.payload] else []) ∧
        (a.Fruitless (w.limits p) → target = none)) ∧
    ∀ parties, w.HasRoom parties →
      (∀ n w', Handles parties n w w' → n ≤ 2 * w.queued parties ∧
        ∀ p ∈ parties, w'.mailbox p ≠ [] → ∀ depth, ∃ result w'',
          w'.handleNext (World.write depth) p = .ok (.ok (some result), w'')) ∧
      ∃ n w', w.pumpAll parties = .ok (n, w') ∧ n ≤ 2 * w.queued parties ∧
        ((∀ p ∈ parties, ¬ w.IsDetached p) → ∀ p ∈ parties, w'.mailbox p = []) := by
  refine ⟨fun p depth result w' hnext => ?_, fun parties hroom => ?_⟩
  · obtain ⟨a, rest, target, hmailbox, -, -, hanswer⟩ := h.exists_answer_of_handleNext hnext
    have hidentity : (w.setMailbox p rest).identity p = w.identity p :=
      peer_modify w.network (fun e => { e with queue := rest }) (fun _ => rfl) _ _
    refine ⟨a, rest, target, hmailbox, fun id => ?_, hanswer.target_eq_none⟩
    rw [hanswer.queue, queue_setMailbox, hidentity]
  · have hexhaustible : w.Exhaustible parties (2 * w.queued parties) :=
      ⟨h, w.network.load_le _, hroom⟩
    have hwords : 2 * w.queued parties ≤ Word.max := by
      cases parties with
      | nil => exact Nat.zero_le _
      | cons p rest => exact (hroom p List.mem_cons_self).arrivals_le
    refine ⟨fun n w' hhandles => ?_, ?_⟩
    · obtain ⟨m, hm, hw'⟩ := hexhaustible.handles hhandles
      exact ⟨by omega, fun p hp hmailbox => hw'.exists_handleNext hp hmailbox⟩
    · have hfuel : 2 * w.queued parties < Word.count := Nat.lt_of_le_of_lt hwords (by decide)
      obtain ⟨count, w', hpump, hcount, hempty⟩ :=
        hexhaustible.exists_pumpRounds hwords hfuel 0
      exact ⟨0 + count, w', hpump, by omega, hempty⟩

/-- Calls at which nobody reacts leave nobody who reacts. -/
theorem World.Interlude.not_waits_of_runAll {reactive : Nat → Prop} {calls : List Call}
    (h : w.Interlude reactive) (hinert : ∀ c, ¬ w.Waits c) (hrun : w.runAll calls = .ok w')
    (c : Call) : ¬ w'.Waits c := by
  induction calls generalizing w with
  | nil =>
      cases hrun
      exact hinert c
  | cons call rest ih =>
      obtain ⟨⟨outcome, v⟩, hcall, hrun⟩ := bind_eq_ok_iff.1 hrun
      exact ih (h.run hcall) (fun c hc => hinert c ((h.callEffect hcall).waits hc)) hrun

/-- Only the parties that were made can share a document. -/
theorem World.eq_of_document_of_lt (h : ∀ p < w.parties.slots.length,
      ∀ q < w.parties.slots.length, (w.phase p).document = (w.phase q).document →
        (w.phase p).document = none ∨ p = q) (p q d : Nat)
    (hp : (w.phase p).document = some d) (hq : (w.phase q).document = some d) : p = q := by
  have hlt : ∀ r, (w.phase r).document = some d → r < w.parties.slots.length := by
    intro r hr
    by_contra hle
    rw [World.phase, World.party, Table.get_of_le (Nat.le_of_not_lt hle)] at hr
    cases hr
  obtain hnone | heq := h p (hlt p hp) q (hlt q hq) (hp.trans hq.symm)
  · cases hnone.symm.trans hp
  · exact heq

/-- Alice and Bob offer their documents to each other at once.  Both refuse, and both handle the
refusal: twice as many arrivals as were queued. -/
theorem arrivals_run_out_crossing_offers :
    ∃ w : World, w.Peaceful ∧ w.queued [0, 1] = 2 ∧ w.HasRoom [0, 1] ∧
      ∃ w', w.pumpAll [0, 1] = .ok (4, w') ∧ ∀ p ∈ [0, 1], w'.mailbox p = [] := by
  have hrun : ∃ w ∈ ((Pair.idle ['a', 'b'] .usual).world.runAll
        [.start 0 Pair.aliceId none Pair.bobId [] 0,
          .start 1 Pair.bobId none Pair.aliceId [] 1]).toOption,
      (∀ p < w.parties.slots.length, ∀ q < w.parties.slots.length,
        (w.phase p).document = (w.phase q).document → (w.phase p).document = none ∨ p = q) ∧
        w.queued [0, 1] = 2 ∧ w.HasRoom [0, 1] ∧ (∀ p ∈ [0, 1], ¬ w.IsDetached p) ∧
        (w.pumpAll [0, 1]).toOption.map Prod.fst = some 4 := by
    decide +kernel
  obtain ⟨w, hw, hsole, hqueued, hroom, hattached, hcount⟩ := hrun
  have hrun := eq_ok_of_mem_toOption hw
  have hidle : (Pair.idle ['a', 'b'] .usual).world.Interlude fun _ => True := .idle _ _
  have hpeaceful : w.Peaceful := {
    arises := (hidle.runAll hrun).arises
    writing := (hidle.runAll hrun).writing_eq_false
    waits := hidle.not_waits_of_runAll (not_waits_idle _ _) hrun
    eq_of_document := eq_of_document_of_lt hsole }
  obtain ⟨n, w', hpump, -, hempty⟩ := ((arrivals_run_out hpeaceful).2 [0, 1] hroom).2
  rw [hpump] at hcount
  cases hcount
  exact ⟨w, hpeaceful, hqueued, hroom, w', hpump, hempty hattached⟩

/-- Bob's document has Carol offer one to Alice before it takes in an edit of Alice.  So Bob, who
handles an update, brings an offer into a queue.  No listener of a host makes a call, and no
document is shared by two parties. -/
theorem update_answered_with_offer :
    let carol : PeerId := .ofByte 0xC2
    ∃ (w w' : World) (result : Except ShareError Unit) (offer : Start),
      (w.Interlude fun _ => True) ∧ w.scripts.slots.flatten = [] ∧
      (∀ p q d, (w.phase p).document = some d → (w.phase q).document = some d → p = q) ∧
      w.handleNext (World.write w.pendingReactions) 1 = .ok (.ok (some result), w') ∧
      w.mailbox 0 = [] ∧ w'.mailbox 0 = [.message carol (Message.start offer).payload] := by
  intro carol
  have hthree : (((Pair.idle ['a', 'b'] .usual).world.addParty carol .usual).2.addDocument
      []).2.Interlude fun _ => True :=
    .arranged (.arranged (.idle _ _) (.addParty ..)) (.addDocument ..)
  have hrun : ∃ v ∈ ((((Pair.idle ['a', 'b'] .usual).world.addParty carol .usual).2.addDocument
        []).2.runAll [.start 0 Pair.aliceId none Pair.bobId [] 0, .handleNext 1, .accept 1 1,
          .edit 0 ⟨0, 0, ['x']⟩]).toOption,
      let w := v.arm 1 ⟨[.start 2 carol none Pair.aliceId [] 2], none⟩
      w.scripts.slots.flatten = [] ∧
        (∀ p < w.parties.slots.length, ∀ q < w.parties.slots.length,
          (w.phase p).document = (w.phase q).document → (w.phase p).document = none ∨ p = q) ∧
        ∃ r ∈ (w.handleNext (World.write w.pendingReactions) 1).toOption,
          (∃ results ∈ r.1.toOption, results.isSome) ∧ w.mailbox 0 = [] ∧
          r.2.mailbox 0 = [.message carol (Message.start
            ⟨carol, carol.short, Pair.aliceId, [], []⟩).payload] := by
    decide +kernel
  obtain ⟨v, hv, hscripts, hsole, ⟨taken, w'⟩, hnext, ⟨results, hresults, hsome⟩, hbefore,
    hafter⟩ := hrun
  obtain ⟨result, rfl⟩ := Option.isSome_iff_exists.1 hsome
  obtain rfl := eq_ok_of_mem_toOption hresults
  exact ⟨_, w', result, _,
    .arranged (hthree.runAll (eq_ok_of_mem_toOption hv)) (.arm 1 _ fun _ _ _ _ => trivial),
    hscripts, eq_of_document_of_lt hsole, eq_ok_of_mem_toOption hnext, hbefore, hafter⟩

end Session

end PairEdit
