import PairEdit.Proofs.Draining
import PairEdit.Proofs.Resemblance

/-!
# Runs with arrivals of outsiders

`Interleaved` sets two runs side by side: one, and the same run with arrivals of other peers than
that of the session.  They come through the queue of the party, where `handleNext`, `pump` and
`serve` take them, or a host hands them to the party itself.  The main theorem says that the
second run comes to the same, apart from one event and one stop for each offer that is properly
addressed.
-/

namespace PairEdit.Session

namespace World

variable {w w' : World} {p : Nat} {write : Writer}

theorem handleNext_of_cons {a : Arrival} {rest : List Arrival} {result : Except ShareError Unit}
    (h : w.mailbox p = a :: rest)
    (harrival : (w.setMailbox p rest).handleArrival write p a = .ok (result, w')) :
    w.handleNext write p = .ok (.ok (some result), w') := by
  rw [handleNext, receive_of_cons h]
  dsimp only
  rw [harrival]
  rfl

/-- What was handled was the oldest arrival. -/
theorem exists_of_handleNext {result : Except ShareError Unit}
    (h : w.handleNext write p = .ok (.ok (some result), w')) :
    ∃ a rest, w.mailbox p = a :: rest ∧
      (w.setMailbox p rest).handleArrival write p a = .ok (result, w') := by
  cases hmailbox : w.mailbox p with
  | nil =>
      rw [handleNext, receive_of_nil hmailbox] at h
      by_cases hattached : (w.network.endpoint (w.party p).endpoint).attached = true
      · rw [if_pos hattached] at h
        cases h
      · rw [if_neg hattached] at h
        cases h
  | cons a rest =>
      rw [handleNext, receive_of_cons hmailbox] at h
      obtain ⟨⟨outcome, v⟩, harrival, h⟩ := bind_eq_ok_iff.1 h
      cases h
      exact ⟨a, rest, rfl, harrival⟩

/-- The call takes arrivals from the queue of the party. -/
def TakesFrom (w : World) (p : Nat) (c : Call) : Prop :=
  ∃ q, c.taker? = some q ∧ (w.party q).endpoint = (w.party p).endpoint

/-- What is inserted when the party has handled an arrival of an outsider.  That is a stop, if
the offer that it refused was said to be its own. -/
def insertStops (w : World) (p : Nat) (inserted : List Inserted) (a : Arrival) : List Inserted :=
  Inserted.enqueue (w.mailbox p).length inserted
    (stopsAt (w.identity p) (w.refusals p a) (w.party p).endpoint)

end World

theorem World.insertStops_of_refusals {w : World} {p : Nat} {a : Arrival}
    (h : w.refusals p a = []) (inserted : List Inserted) :
    w.insertStops p inserted a = inserted := by
  rw [World.insertStops, h]
  rfl

/-! ## Two runs side by side -/

/-- A party handles all that is queued for it, when outsiders' arrivals are inserted.  These it
handles while it has a session or an offer with this peer.  The number is that of all arrivals,
and the refusals are those that the inserted ones lead to. -/
inductive Drains (p : Nat) (peer : PeerId) (write : Writer) :
    World → List Inserted → Nat → List Refusal → World → Prop where
  | done {w : World} (hmailbox : w.mailbox p = []) : Drains p peer write w [] 0 [] w
  | own {w w₁ w₂ : World} {inserted : List Inserted} {n : Nat} {refusals : List Refusal}
      {result : Except ShareError Unit} (hdue : Inserted.due? inserted = none)
      (hnext : w.handleNext write p = .ok (.ok (some result), w₁))
      (h : Drains p peer write w₁ (Inserted.skip inserted) n refusals w₂) :
      Drains p peer write w inserted (n + 1) refusals w₂
  | outsider {w w₂ : World} {inserted rest : List Inserted} {a : Arrival} {n : Nat}
      {refusals : List Refusal} (hother : (w.phase p).other = some peer)
      (hdue : Inserted.due? inserted = some (a, rest)) (hsource : a.source ≠ peer)
      (h : Drains p peer write w (w.insertStops p rest a) n refusals w₂) :
      Drains p peer write w inserted (n + 1) (w.refusals p a ++ refusals) w₂

/-- A run from the first world to the last one, and the same run with arrivals of other peers
than this one, which are handled while the party has a session or an offer with this peer.  They
arrive in the queue of the party or are handed to it.  While some are queued nobody takes from
the queue in the midst of a call, since that would not take the same as in the first run.  The
refusals are those that the arrivals lead to. -/
inductive Interleaved (p : Nat) (peer : PeerId) : World → List Inserted → List Input →
    List Input → List Refusal → World → List Inserted → Prop where
  | done (w : World) (inserted : List Inserted) : Interleaved p peer w inserted [] [] [] w inserted
  | call {w w₁ w₂ : World} {inserted later : List Inserted} {c : Call} {outcome : Outcome}
      {inputs all : List Input} {refusals : List Refusal}
      (hqueue : inserted = [] ∨ ∀ c', c' = c ∨ w.Waits c' → ¬ w.TakesFrom p c')
      (hrun : w.run c = .ok (outcome, w₁))
      (h : Interleaved p peer w₁ inserted inputs all refusals w₂ later) :
      Interleaved p peer w inserted (.call c :: inputs) (.call c :: all) refusals w₂ later
  | arrival {w w₂ : World} {inserted later : List Inserted} {inputs all : List Input}
      {refusals : List Refusal} (id : Nat) (a : Arrival)
      (h : Interleaved p peer (w.arrive id a) inserted inputs all refusals w₂ later) :
      Interleaved p peer w inserted (.arrival id a :: inputs) (.arrival id a :: all) refusals w₂
        later
  | handleNext {w w₁ w₂ : World} {inserted later : List Inserted}
      {result : Except ShareError Unit} {inputs all : List Input} {refusals : List Refusal}
      (hqueue : ∀ c, w.Waits c → ¬ w.TakesFrom p c) (hdue : Inserted.due? inserted = none)
      (hrun : w.run (.handleNext p) = .ok (.next (.ok (some result)), w₁))
      (h : Interleaved p peer w₁ (Inserted.skip inserted) inputs all refusals w₂ later) :
      Interleaved p peer w inserted (.call (.handleNext p) :: inputs)
        (.call (.handleNext p) :: all) refusals w₂ later
  | drain {w v w₁ w₂ : World} {inserted later : List Inserted} {c : Call} {n : Nat}
      {outcome : Outcome} {inputs all : List Input} {first refusals : List Refusal}
      (hqueue : ∀ c, w.Waits c → ¬ w.TakesFrom p c) (hc : c = .pump p ∨ c = .serve p)
      (hdrains : Drains p peer (World.write w.pendingReactions) w inserted n first v)
      (hn : n < Word.count) (hrun : w.run c = .ok (outcome, w₁))
      (h : Interleaved p peer w₁ [] inputs all refusals w₂ later) :
      Interleaved p peer w inserted (.call c :: inputs) (.call c :: all) (first ++ refusals) w₂
        later
  | handed {w w₂ : World} {inserted later : List Inserted} {a : Arrival} {inputs all : List Input}
      {refusals : List Refusal} (hother : (w.phase p).other = some peer)
      (hsource : a.source ≠ peer)
      (h : Interleaved p peer w (w.insertStops p inserted a) inputs all refusals w₂ later) :
      Interleaved p peer w inserted inputs (.call (a.call p) :: all) (w.refusals p a ++ refusals)
        w₂ later
  | queued {w w₂ : World} {inserted later : List Inserted} {a : Arrival} {inputs all : List Input}
      {refusals : List Refusal}
      (hexists : (w.party p).endpoint < w.network.endpoints.slots.length)
      (h : Interleaved p peer w (Inserted.enqueue (w.mailbox p).length inserted [a]) inputs all
        refusals w₂ later) :
      Interleaved p peer w inserted inputs (.arrival (w.party p).endpoint a :: all) refusals w₂
        later
  | outsider {w w₂ : World} {inserted rest later : List Inserted} {a : Arrival}
      {inputs all : List Input} {refusals : List Refusal}
      (hother : (w.phase p).other = some peer) (hdue : Inserted.due? inserted = some (a, rest))
      (hsource : a.source ≠ peer)
      (h : Interleaved p peer w (w.insertStops p rest a) inputs all refusals w₂ later) :
      Interleaved p peer w inserted inputs (.call (.handleNext p) :: all)
        (w.refusals p a ++ refusals) w₂ later

theorem forall_call_mem_cons {c : Call} {inputs : List Input} {P : Call → Prop} :
    (∀ c', .call c' ∈ Input.call c :: inputs → P c') ↔ P c ∧ ∀ c', .call c' ∈ inputs → P c' := by
  simp only [List.mem_cons, Input.call.injEq, forall_eq_or_imp]

/-! ## What both runs keep -/

/-- The second world resembles the first one, and the parties that may take arrivals take none
of the stops at other endpoints than that of the party. -/
structure Alongside (takes : Nat → Prop) (p : Nat) (peer our : PeerId) (own : Nat)
    (all refusals : List Refusal) (inserted : List Inserted) (w w' : World) : Prop where
  resembles : Resembles p our own refusals inserted w w'
  party_lt : p < w.parties.slots.length
  identity_eq : w.identity p = our
  endpoint_eq : (w.party p).endpoint = own
  free : (w.party p).writing = false
  waits : ∀ c, w.Waits c → ∀ q, c.taker? = some q → takes q
  outside : ∀ q, takes q → (w.party q).endpoint ≠ own → ∀ r ∈ all, r.sender ≠ w.identity q
  refused : ∀ r ∈ refusals, r ∈ all ∧ r.sender ≠ peer ∧
    ∀ id, r.target = some id → (w.network.endpoint id).peer = r.sender

namespace Alongside

variable {takes : Nat → Prop} {p own : Nat} {peer our : PeerId} {all refusals : List Refusal}
variable {inserted rest : List Inserted} {w w₁ w' : World} {a : Arrival}

/-- The parties that may take arrivals, except from a queue with inserted ones. -/
def Takers (takes : Nat → Prop) (own : Nat) (inserted : List Inserted) (w : World) (q : Nat) :
    Prop :=
  takes q ∧ (inserted = [] ∨ (w.party q).endpoint ≠ own)

/-- Whoever takes arrivals finds the same in both worlds. -/
theorem not_mem_differing (h : Alongside takes p peer our own all refusals inserted w w') {q : Nat}
    (hq : Takers takes own inserted w q) :
    (w.party q).endpoint ∉ Resembles.differing own refusals inserted := by
  intro hmem
  rcases Resembles.mem_differing.1 hmem with ⟨htarget, hne⟩ | ⟨hown, hinserted⟩
  · obtain ⟨r, hr, htarget⟩ := List.mem_filterMap.1 htarget
    obtain ⟨hall, -, hpeer⟩ := h.refused r hr
    exact h.outside q hq.1 hne r hall (hpeer _ htarget).symm
  · exact hq.2.elim hinserted fun hne => hne hown

/-- What comes to the same whatever went before, comes to the same in both worlds. -/
theorem lift (h : Alongside takes p peer our own all refusals inserted w w')
    (hqueue : inserted = [] ∨ ∀ c, w.Waits c → ¬ w.TakesFrom p c)
    {α : Type} {f : World → Except Fault (α × World)}
    (hf : ∀ {x v v'}, Offset.Follows (Takers takes own inserted w) x v v' →
      Lifts (Offset.Answers (Takers takes own inserted w) x Eq) (f v) (f v'))
    {result : α} (hrun : f w = .ok (result, w₁)) (hsteps : WorldSteps w w₁) :
    ∃ w₁', f w' = .ok (result, w₁') ∧
      Alongside takes p peer our own all refusals inserted w₁ w₁' ∧
      (inserted = [] ∨ ∀ c, w₁.Waits c → ¬ w₁.TakesFrom p c) := by
  have hwaits : ∀ c, w.Waits c → ∀ q, c.taker? = some q → Takers takes own inserted w q :=
    fun c hc q hq => ⟨h.waits c hc q hq, hqueue.imp_right fun hqueue hown =>
      hqueue c hc ⟨q, hq, hown.trans h.endpoint_eq.symm⟩⟩
  obtain ⟨w₁', hrun', hresembles, hwaits₁⟩ := h.resembles.lift h.party_lt
    (fun q hq => h.not_mem_differing hq) hwaits hf hrun hsteps
  have hendpoint : ∀ q, (w₁.party q).endpoint = (w.party q).endpoint := hsteps.endpoint_eq
  refine ⟨w₁', hrun', ?_, ?_⟩
  · exact {
      resembles := hresembles
      party_lt := Nat.lt_of_lt_of_le h.party_lt hsteps.parties_length_le
      identity_eq := (hsteps.identity_eq p).trans h.identity_eq
      endpoint_eq := (hendpoint p).trans h.endpoint_eq
      free := (hsteps.writing_eq p).trans h.free
      waits := fun c hc q hq => (hwaits₁ c hc q hq).1
      outside := fun q hq hne => hsteps.identity_eq q ▸ h.outside q hq (hendpoint q ▸ hne)
      refused := fun r hr => ⟨(h.refused r hr).1, (h.refused r hr).2.1, fun id hid =>
        (hsteps.peer_eq id).trans ((h.refused r hr).2.2 id hid)⟩ }
  · by_cases hinserted : inserted = []
    · exact .inl hinserted
    · refine .inr fun c hc ⟨q, hq, hown⟩ => ?_
      rw [hendpoint, hendpoint, h.endpoint_eq] at hown
      exact (hwaits₁ c hc q hq).2.elim hinserted fun hne => hne hown

/-- What is queued for the party does not matter for the rest. -/
theorem mapQueue (h : Alongside takes p peer our own all refusals inserted w w')
    {f : List Arrival → List Arrival} {w'' : World} (id : Nat)
    (hresembles : Resembles p our own refusals rest (w.mapQueue id f) w'') :
    Alongside takes p peer our own all refusals rest (w.mapQueue id f) w'' := by
  have hpeer : ∀ j, ((w.mapQueue id f).network.endpoint j).peer = (w.network.endpoint j).peer := by
    intro j
    rw [World.endpoint_mapQueue]
    split <;> rfl
  have hidentity : ∀ q, (w.mapQueue id f).identity q = w.identity q := fun q => hpeer _
  exact {
    resembles := hresembles
    party_lt := h.party_lt
    identity_eq := (hidentity p).trans h.identity_eq
    endpoint_eq := h.endpoint_eq
    free := h.free
    waits := h.waits
    outside := fun q hq hne => hidentity q ▸ h.outside q hq hne
    refused := fun r hr => ⟨(h.refused r hr).1, (h.refused r hr).2.1, fun j hj =>
      (hpeer j).trans ((h.refused r hr).2.2 j hj)⟩ }

/-- An arrival of an outsider is handled in the second world alone. -/
theorem handleArrival (h : Alongside takes p peer our own all refusals inserted w w')
    (hother : (w.phase p).other = some peer) (hsource : a.source ≠ peer)
    (hall : ∀ r ∈ w.refusals p a, r ∈ all) (write : Writer) :
    ∃ result w'', w'.handleArrival write p a = .ok (result, w'') ∧
      Alongside takes p peer our own all (refusals ++ w.refusals p a)
        (w.insertStops p inserted a) w w'' := by
  obtain ⟨result, w'', hrun, hresembles⟩ :=
    h.resembles.handleArrival h.identity_eq h.free hother hsource write
  rw [← h.endpoint_eq, ← h.identity_eq] at hresembles
  refine ⟨result, w'', hrun, { h with
    resembles := h.endpoint_eq ▸ h.identity_eq ▸ hresembles
    refused := fun r hr => ?_ }⟩
  rcases List.mem_append.1 hr with hr | hr
  · exact h.refused r hr
  · refine ⟨hall r hr, ?_⟩
    rcases w.refusals_eq p a with hnone | hone
    · rw [hnone] at hr
      cases hr
    · rw [hone, List.mem_singleton] at hr
      subst hr
      exact ⟨hsource, fun id hid => (World.of_sendTarget hid).2⟩

/-- The next arrival is one that both queues hold. -/
theorem handleNext_own (h : Alongside takes p peer our own all refusals inserted w w')
    (hqueue : inserted = [] ∨ ∀ c, w.Waits c → ¬ w.TakesFrom p c)
    (hdue : Inserted.due? inserted = none) {depth : Nat} {result : Except ShareError Unit}
    (hnext : w.handleNext (World.write depth) p = .ok (.ok (some result), w₁)) :
    ∃ w₁', w'.handleNext (World.write depth) p = .ok (.ok (some result), w₁') ∧
      Alongside takes p peer our own all refusals (Inserted.skip inserted) w₁ w₁' ∧
      (Inserted.skip inserted = [] ∨ ∀ c, w₁.Waits c → ¬ w₁.TakesFrom p c) := by
  obtain ⟨a, queue, hmailbox, harrival⟩ := World.exists_of_handleNext hnext
  have hown := h.endpoint_eq
  subst hown
  obtain ⟨queue', hmailbox', htaken⟩ := h.resembles.take hdue hmailbox
  rw [← h.resembles.endpoint_party p] at hmailbox'
  have hskip : Inserted.skip inserted = [] ∨ ∀ c, w.Waits c → ¬ w.TakesFrom p c :=
    hqueue.imp_left fun hinserted => by rw [hinserted, Inserted.skip]
  obtain ⟨w₁', harrival', hlast, hqueue₁⟩ := (h.mapQueue _ htaken).lift hskip
    (fun hfollows => (Offset.writes_write _ _ depth).handleArrival hfollows a) harrival
    (World.worldSteps_handleArrival (World.worldSteps_write depth) harrival)
  rw [← h.resembles.endpoint_party p] at harrival'
  exact ⟨w₁', World.handleNext_of_cons hmailbox' harrival', hlast, hqueue₁⟩

/-- The next arrival is an inserted one, which the party handles in the second world alone. -/
theorem handleNext_outsider (h : Alongside takes p peer our own all refusals inserted w w')
    (hother : (w.phase p).other = some peer) (hdue : Inserted.due? inserted = some (a, rest))
    (hsource : a.source ≠ peer) (hall : ∀ r ∈ w.refusals p a, r ∈ all) (write : Writer) :
    ∃ result w'', w'.handleNext write p = .ok (.ok (some result), w'') ∧
      Alongside takes p peer our own all (refusals ++ w.refusals p a) (w.insertStops p rest a)
        w w'' := by
  have hown := h.endpoint_eq
  subst hown
  obtain ⟨queue, hmailbox', htaken⟩ := h.resembles.take_due hdue
  have halongside : Alongside takes p peer our (w.party p).endpoint all refusals rest w
      (w'.mapQueue (w.party p).endpoint fun _ => queue) := { h with resembles := htaken }
  obtain ⟨result, w'', harrival', hlast⟩ := halongside.handleArrival hother hsource hall write
  rw [← h.resembles.endpoint_party p] at hmailbox' harrival'
  exact ⟨result, w'', World.handleNext_of_cons hmailbox' harrival', hlast⟩

end Alongside

/-! ## Loops over a queue with inserted arrivals -/

/-- What a loop over the queue gives at its end. -/
def World.pumpResult (w : World) (p count : Nat) : Except ShareError Nat :=
  if (w.network.endpoint (w.party p).endpoint).attached then .ok count
  else .error (.sync .channelClosed)

theorem World.pumpFrom_of_nil {write : Writer} {w : World} {p : Nat} (h : w.mailbox p = [])
    (handled fuel : Nat) :
    World.pumpFrom write p handled (fuel + 1) w = .ok (w.pumpResult p handled, w) := by
  simp only [World.pumpFrom, World.handleNext, World.receive_of_nil h, World.pumpResult]
  cases (w.network.endpoint (w.party p).endpoint).attached with
  | false => rfl
  | true => rfl

theorem World.pumpFrom_of_handleNext {write : Writer} {w w₁ : World} {p : Nat}
    {result : Except ShareError Unit} (h : w.handleNext write p = .ok (.ok (some result), w₁))
    (handled fuel : Nat) :
    World.pumpFrom write p handled (fuel + 1) w = World.pumpFrom write p (handled + 1) fuel w₁ := by
  rw [World.pumpFrom, h]
  rfl

namespace Drains

variable {takes : Nat → Prop} {p own n depth : Nat} {peer our : PeerId}
variable {all done refusals : List Refusal} {inserted : List Inserted} {w w' v : World}

/-- In the first run the loop handles what is not inserted. -/
theorem exists_pumpFrom {write : Writer} (h : Drains p peer write w inserted n refusals v)
    (handled : Nat) {fuel : Nat} (hfuel : n < fuel) :
    ∃ count, World.pumpFrom write p handled fuel w = .ok (v.pumpResult p count, v) := by
  induction h generalizing handled fuel with
  | done hmailbox =>
      obtain ⟨fuel, rfl⟩ := Nat.exists_eq_succ_of_ne_zero (Nat.ne_of_gt hfuel)
      exact ⟨handled, World.pumpFrom_of_nil hmailbox handled fuel⟩
  | own _ hnext _ ih =>
      obtain ⟨fuel, rfl⟩ := Nat.exists_eq_succ_of_ne_zero (Nat.ne_of_gt (Nat.zero_lt_of_lt hfuel))
      rw [World.pumpFrom_of_handleNext hnext]
      exact ih (handled + 1) (Nat.lt_of_succ_lt_succ hfuel)
  | outsider _ _ _ _ ih => exact ih handled (Nat.lt_of_succ_lt hfuel)

/-- In the second run the loop handles the inserted arrivals as well, and ends alike. -/
theorem exists_pumpFrom_inserted (h : Drains p peer (World.write depth) w inserted n refusals v)
    (hw : Alongside takes p peer our own all done inserted w w')
    (hqueue : inserted = [] ∨ ∀ c, w.Waits c → ¬ w.TakesFrom p c)
    (hall : ∀ r ∈ refusals, r ∈ all) (handled : Nat) {fuel : Nat} (hfuel : n < fuel) :
    ∃ count v', World.pumpFrom (World.write depth) p handled fuel w' =
        .ok (v.pumpResult p count, v') ∧
      Alongside takes p peer our own all (done ++ refusals) [] v v' := by
  induction h generalizing w' done handled fuel with
  | @done w hmailbox =>
      obtain ⟨fuel, rfl⟩ := Nat.exists_eq_succ_of_ne_zero (Nat.ne_of_gt hfuel)
      have hparty' : (w'.party p).endpoint = (w.party p).endpoint :=
        hw.resembles.endpoint_party p
      have hmailbox' : w'.mailbox p = [] := by
        rw [World.mailbox, hparty', hw.endpoint_eq, hw.resembles.queue, Inserted.merge,
          ← hw.endpoint_eq]
        exact hmailbox
      have hresult : w'.pumpResult p handled = w.pumpResult p handled := by
        rw [World.pumpResult, World.pumpResult, hparty', hw.resembles.endpoint]
      refine ⟨handled, w', ?_, by rwa [List.append_nil]⟩
      rw [World.pumpFrom_of_nil hmailbox', hresult]
  | own hdue hnext _ ih =>
      obtain ⟨fuel, rfl⟩ := Nat.exists_eq_succ_of_ne_zero (Nat.ne_of_gt (Nat.zero_lt_of_lt hfuel))
      obtain ⟨w₁', hnext', hw₁, hqueue₁⟩ := hw.handleNext_own hqueue hdue hnext
      rw [World.pumpFrom_of_handleNext hnext']
      exact ih hw₁ hqueue₁ hall (handled + 1) (Nat.lt_of_succ_lt_succ hfuel)
  | @outsider w _ _ rest a _ later hother hdue hsource _ ih =>
      obtain ⟨fuel, rfl⟩ := Nat.exists_eq_succ_of_ne_zero (Nat.ne_of_gt (Nat.zero_lt_of_lt hfuel))
      obtain ⟨result, w'', hnext', hw''⟩ := hw.handleNext_outsider hother hdue hsource
        (fun r hr => hall r (List.mem_append_left _ hr)) (World.write depth)
      have hreserved : ∀ c, w.Waits c → ¬ w.TakesFrom p c := by
        refine hqueue.resolve_left fun hnone => ?_
        rw [hnone] at hdue
        cases hdue
      obtain ⟨count, v', hpump, hlast⟩ := ih hw'' (.inr hreserved)
        (fun r hr => hall r (List.mem_append_right _ hr)) (handled + 1)
          (Nat.lt_of_succ_lt_succ hfuel)
      refine ⟨count, v', ?_, by rwa [← List.append_assoc]⟩
      rw [World.pumpFrom_of_handleNext hnext', hpump]

end Drains

/-! ## The party is not disturbed -/

namespace World

variable {w : World} {p : Nat}

theorem run_of_pump {result : Except ShareError Nat} {w₁ : World}
    (h : w.pump (write w.pendingReactions) p = .ok (result, w₁)) :
    w.run (.pump p) = .ok (.pumped result, w₁) := by
  rw [run, perform, h]
  rfl

theorem run_of_serve {closed : Bool} {w₁ : World}
    (h : w.serve (write w.pendingReactions) p = .ok (closed, w₁)) :
    w.run (.serve p) = .ok (.served closed, w₁) := by
  rw [run, perform, h]
  rfl

theorem run_of_handleNext {result : Except SyncError (Option (Except ShareError Unit))}
    {w₁ : World} (h : w.handleNext (write w.pendingReactions) p = .ok (result, w₁)) :
    w.run (.handleNext p) = .ok (.next result, w₁) := by
  rw [run, perform, h]
  rfl

theorem outcomes_call {c : Call} {outcome : Outcome} {w₁ w₂ : World} {rest : List Input}
    {outcomes : List Outcome} (hrun : w.run c = .ok (outcome, w₁))
    (hrest : w₁.outcomes rest = .ok (outcomes, w₂)) :
    w.outcomes (.call c :: rest) = .ok (outcome :: outcomes, w₂) := by
  rw [World.outcomes, hrun]
  dsimp only [bind, Except.bind]
  rw [hrest]
  rfl

theorem handleNext_of_run {result : Except SyncError (Option (Except ShareError Unit))}
    {w₁ : World} (h : w.run (.handleNext p) = .ok (.next result, w₁)) :
    w.handleNext (write w.pendingReactions) p = .ok (result, w₁) := by
  obtain ⟨⟨next, v⟩, hnext, h⟩ := bind_eq_ok_iff.1 h
  cases h
  exact hnext

end World

namespace Alongside

variable {takes : Nat → Prop} {p own : Nat} {peer our : PeerId} {all refusals : List Refusal}
variable {w w' : World}

/-- Both worlds have the same reactions to come. -/
theorem pendingReactions_eq {inserted : List Inserted}
    (h : Alongside takes p peer our own all refusals inserted w w') :
    w'.pendingReactions = w.pendingReactions := by
  rw [World.pendingReactions, World.pendingReactions, h.resembles.surfaces, h.resembles.scripts]

/-- The peer counts as gone in both worlds. -/
theorem hangUp (h : Alongside takes p peer our own all refusals [] w w') :
    Alongside takes p peer our own all refusals [] (w.hangUp p) (w'.hangUp p) := by
  have hlifts : ∀ {x : Offset} {v v' : World}, x.Follows (Takers takes own [] w) v v' →
      x.Follows (Takers takes own [] w) (v.hangUp p) (v'.hangUp p) := by
    intro x v v' hfollows
    rw [World.hangUp, World.hangUp, hfollows.phase_eq, Offset.other_onPhase]
    cases (v.phase p).other with
    | none => exact hfollows
    | some other => exact hfollows.handleDisconnect other
  have hsteps : WorldSteps w (w.hangUp p) := by
    unfold World.hangUp
    split
    · exact World.worldSteps_handleDisconnect ..
    · exact .refl w
  obtain ⟨_, ⟨⟩, hlast, -⟩ := h.lift (.inl rfl) (f := fun v => .ok ((), v.hangUp p))
    (fun hfollows => .ok (.intro rfl (hlifts hfollows))) rfl hsteps
  exact hlast

/-- Both worlds are left alike, when nothing is queued any more. -/
theorem conclude (h : Alongside takes p peer our own all refusals [] w w') (count count' : Nat) :
    Alongside takes p peer our own all refusals [] (World.conclude p (w.pumpResult p count, w)).2
      (World.conclude p (w.pumpResult p count', w')).2 := by
  unfold World.pumpResult
  by_cases hattached : (w.network.endpoint (w.party p).endpoint).attached = true
  · rw [if_pos hattached, if_pos hattached]
    exact h
  · rw [if_neg hattached, if_neg hattached]
    exact h.hangUp

end Alongside

namespace Interleaved

variable {p own : Nat} {peer our : PeerId} {w w' w₁ : World} {inserted later : List Inserted}
variable {inputs all : List Input} {total done refusals : List Refusal} {takes : Nat → Prop}

/-- What a loop leads to in the first run. -/
theorem world_of_drain {c : Call} {n : Nat} {outcome : Outcome} {v : World}
    (hc : c = .pump p ∨ c = .serve p)
    (hdrains : Drains p peer (World.write w.pendingReactions) w inserted n refusals v)
    (hn : n < Word.count) (hrun : w.run c = .ok (outcome, w₁)) :
    c = .pump p ∧ w₁ = v ∨
      c = .serve p ∧ ∃ count, w₁ = (World.conclude p (v.pumpResult p count, v)).2 := by
  obtain ⟨count, hpump⟩ := hdrains.exists_pumpFrom 0 hn
  rcases hc with rfl | rfl
  · rw [World.run_of_pump hpump] at hrun
    cases hrun
    exact .inl ⟨rfl, rfl⟩
  · rw [World.run_of_serve (World.serve_of_pump hpump)] at hrun
    cases hrun
    exact .inr ⟨rfl, count, rfl⟩

/-- The first run comes to its end. -/
theorem exists_outcomes (h : Interleaved p peer w inserted inputs all refusals w₁ later) :
    ∃ outcomes, w.outcomes inputs = .ok (outcomes, w₁) := by
  induction h with
  | done => exact ⟨[], rfl⟩
  | call _ hrun _ ih | handleNext _ _ hrun _ ih | drain _ _ _ _ hrun _ ih =>
      obtain ⟨outcomes, hrest⟩ := ih
      exact ⟨_, World.outcomes_call hrun hrest⟩
  | arrival id a _ ih => exact ih
  | handed _ _ _ ih => exact ih
  | queued _ _ ih => exact ih
  | outsider _ _ _ _ ih => exact ih

/-- The second run comes to its end alongside the first one. -/
theorem exists_outcomes_all (h : Interleaved p peer w inserted inputs all refusals w₁ later)
    (hw : Alongside takes p peer our own total done inserted w w')
    (htotal : ∀ r ∈ refusals, r ∈ total)
    (hcalls : ∀ c, .call c ∈ inputs → ∀ q, c.taker? = some q → takes q) :
    ∃ outcomes w₁', w'.outcomes all = .ok (outcomes, w₁') ∧
      Alongside takes p peer our own total (done ++ refusals) later w₁ w₁' := by
  have hcall : ∀ {v v₁ : World} {c : Call} {outcome : Outcome} {rest : List Input}
      {P : World → Prop}, v.run c = .ok (outcome, v₁) →
      (∃ outcomes v₂, v₁.outcomes rest = .ok (outcomes, v₂) ∧ P v₂) →
      ∃ outcomes v₂, v.outcomes (.call c :: rest) = .ok (outcomes, v₂) ∧ P v₂ := by
    rintro v v₁ c outcome rest P hrun ⟨outcomes, v₂, hrest, hlast⟩
    exact ⟨_, v₂, World.outcomes_call hrun hrest, hlast⟩
  induction h generalizing w' done with
  | done w inserted => exact ⟨[], w', rfl, by rwa [List.append_nil]⟩
  | @call w w₁ _ inserted _ c outcome _ _ _ hqueue hrun _ ih =>
      obtain ⟨hc, hrest⟩ := forall_call_mem_cons.1 hcalls
      have hmay : MayMake (Alongside.Takers takes own inserted w) c := fun q hq =>
        ⟨hc q hq, hqueue.imp_right fun hqueue hown =>
          hqueue c (.inl rfl) ⟨q, hq, hown.trans hw.endpoint_eq.symm⟩⟩
      obtain ⟨w₁', hrun', hw₁, -⟩ := hw.lift
        (hqueue.imp_right fun hqueue c' hc' => hqueue c' (.inr hc'))
        (f := fun v => v.run c) (fun hfollows => hfollows.run hmay) hrun (World.worldSteps_run hrun)
      exact hcall hrun' (ih hw₁ htotal hrest)
  | arrival id a _ ih =>
      exact ih (hw.mapQueue (f := (· ++ [a])) id (hw.resembles.arrive id a)) htotal
        fun c hc => hcalls c (List.mem_cons_of_mem _ hc)
  | handleNext hqueue hdue hrun _ ih =>
      obtain ⟨-, hrest⟩ := forall_call_mem_cons.1 hcalls
      obtain ⟨w₁', hnext', hw₁, -⟩ :=
        hw.handleNext_own (.inr hqueue) hdue (World.handleNext_of_run hrun)
      rw [← hw.pendingReactions_eq] at hnext'
      exact hcall (World.run_of_handleNext hnext') (ih hw₁ htotal hrest)
  | @drain w v w₁ _ _ _ c _ _ _ _ first later hqueue hc hdrains hn hrun _ ih =>
      obtain ⟨-, hrest⟩ := forall_call_mem_cons.1 hcalls
      obtain ⟨count, v', hpump', hv⟩ := hdrains.exists_pumpFrom_inserted hw (.inr hqueue)
        (fun r hr => htotal r (List.mem_append_left _ hr)) 0 hn
      rw [← hw.pendingReactions_eq] at hpump'
      have hlater : ∀ r ∈ later, r ∈ total := fun r hr => htotal r (List.mem_append_right _ hr)
      rcases world_of_drain hc hdrains hn hrun with ⟨rfl, rfl⟩ | ⟨rfl, count', rfl⟩
      · have hlast := ih hv hlater hrest
        rw [List.append_assoc] at hlast
        exact hcall (World.run_of_pump hpump') hlast
      · have hlast := ih (hv.conclude count' count) hlater hrest
        rw [List.append_assoc] at hlast
        exact hcall (World.run_of_serve (World.serve_of_pump hpump')) hlast
  | @handed w _ _ _ a _ _ later hother hsource _ ih =>
      obtain ⟨result, w'', harrival, hnext⟩ := hw.handleArrival hother hsource
        (fun r hr => htotal r (List.mem_append_left _ hr)) (World.write w'.pendingReactions)
      obtain ⟨outcome, hrun⟩ := World.run_call harrival
      have hlast := ih hnext (fun r hr => htotal r (List.mem_append_right _ hr)) hcalls
      rw [List.append_assoc] at hlast
      exact hcall hrun hlast
  | queued hexists _ ih =>
      have hown := hw.endpoint_eq
      subst hown
      exact ih { hw with resembles := hw.resembles.enqueue hexists _ } htotal hcalls
  | @outsider w _ _ _ _ a _ _ later hother hdue hsource _ ih =>
      obtain ⟨result, w'', hnext', hnext⟩ := hw.handleNext_outsider hother hdue hsource
        (fun r hr => htotal r (List.mem_append_left _ hr)) (World.write w'.pendingReactions)
      have hlast := ih hnext (fun r hr => htotal r (List.mem_append_right _ hr)) hcalls
      rw [List.append_assoc] at hlast
      exact hcall (World.run_of_handleNext hnext') hlast

end Interleaved

/-- Arrivals of other peers do not disturb a party that has a session or an offer, whatever they
hold and wherever they come in a run: in the queue, from which `handleNext`, `pump` or `serve`
takes them, or handed to the party.  The run with them ends in a world that resembles the one
without them, and nothing more is sent to the peer of the session.  The other peers belong to
the outside: those whose offers are refused do not take the stops in the run. -/
theorem undisturbed_by_outsiders {p : Nat} {peer : PeerId} {w w₁ : World}
    {inputs all : List Input} {refusals : List Refusal} {later : List Inserted}
    (hp : p < w.parties.slots.length) (hfree : (w.party p).writing = false)
    (h : Interleaved p peer w [] inputs all refusals w₁ later)
    (htakes : ∀ c, .call c ∈ inputs ∨ w.Waits c → ¬ w.TakesFrom p c → ∀ q, c.taker? = some q →
      ∀ r ∈ refusals, r.sender ≠ w.identity q) :
    (∃ outcomes, w.outcomes inputs = .ok (outcomes, w₁)) ∧
      ∃ outcomes w₁', w.outcomes all = .ok (outcomes, w₁') ∧
        Resembles p (w.identity p) (w.party p).endpoint refusals later w₁ w₁' ∧
        (∀ r ∈ refusals, r.sender ≠ peer) ∧
        ∀ id, id ≠ (w.party p).endpoint → (w₁.network.endpoint id).peer = peer →
          (w₁'.network.endpoint id).queue = (w₁.network.endpoint id).queue := by
  let takes : Nat → Prop := fun q => (w.party q).endpoint ≠ (w.party p).endpoint →
    ∀ r ∈ refusals, r.sender ≠ w.identity q
  have htaker : ∀ c, .call c ∈ inputs ∨ w.Waits c → ∀ q, c.taker? = some q → takes q := by
    intro c hc q hq hne
    refine htakes c hc (fun ⟨q', hq', hown⟩ => ?_) q hq
    rw [hq, Option.some.injEq] at hq'
    exact hne (hq' ▸ hown)
  have halongside : Alongside takes p peer (w.identity p) (w.party p).endpoint refusals [] [] w w :=
    {
    resembles := .refl ..
    party_lt := hp
    identity_eq := rfl
    endpoint_eq := rfl
    free := hfree
    waits := fun c hc => htaker c (.inr hc)
    outside := fun q hq hne => hq hne
    refused := fun r hr => by cases hr }
  obtain ⟨outcomes, w₁', hrun, hlast⟩ :=
    h.exists_outcomes_all halongside (fun r hr => hr) fun c hc => htaker c (.inl hc)
  rw [List.nil_append] at hlast
  refine ⟨h.exists_outcomes, outcomes, w₁', hrun, hlast.resembles,
    fun r hr => (hlast.refused r hr).2.1, fun id hid hpeer => ?_⟩
  have hnone : stopsAt (w.identity p) refusals id = [] := by
    refine Resembles.stopsAt_eq_nil fun hmem => ?_
    obtain ⟨r, hr, htarget⟩ := List.mem_filterMap.1 hmem
    obtain ⟨-, hne, htold⟩ := hlast.refused r hr
    exact hne ((htold id htarget).symm.trans hpeer)
  have hqueue := hlast.resembles.queue_of_ne id hid
  rw [hnone] at hqueue
  exact hqueue.eq_of_nil

theorem World.not_waits_of_pendingReactions {w : World} (h : w.pendingReactions = 0) (c : Call) :
    ¬ w.Waits c := by
  obtain ⟨hhooks, hscripts⟩ := Nat.add_eq_zero_iff.1 h
  rintro (⟨d, hook, hhook, -⟩ | ⟨i, now, hnow, -⟩)
  · rcases Nat.lt_or_ge d w.surfaces.slots.length with hd | hd
    · refine List.countP_eq_zero.1 hhooks _ (List.getElem_mem hd) ?_
      rw [Table.get, List.getElem?_eq_getElem hd] at hhook
      exact Option.isSome_iff_exists.2 ⟨hook, hhook⟩
    · rw [Table.get_of_le hd] at hhook
      cases hhook
  · rcases Nat.lt_or_ge i w.scripts.slots.length with hi | hi
    · rw [Table.get, List.getElem?_eq_getElem hi] at hnow
      have hmem := List.mem_flatten.2 ⟨_, List.getElem_mem hi, hnow⟩
      rw [List.eq_nil_of_length_eq_zero hscripts] at hmem
      cases hmem
    · rw [Table.get_of_le hi] at hnow
      cases hnow

/-- A third peer offers a document and stops while two others share one.  Its offer is queued
before an edit of the session and its stop behind that, and one `pump` handles all three. -/
theorem undisturbed_by_outsiders_of_three :
    let alice : PeerId := .ofByte 0xA1
    let bob : PeerId := .ofByte 0xB0
    let carol : PeerId := .ofByte 0xC2
    let three := ((Pair.idle ['a', 'b'] .usual).world.addEndpoint carol).2
    let offer : Arrival := .message carol (Message.payload (.start ⟨carol, [], alice, [], []⟩))
    let stop : Arrival := .message carol (Message.payload .stop)
    ∃ w w₁ outcomes w₁',
      three.runAll [.start 0 alice none bob [] 0, .pump 1, .accept 1 1] = .ok w ∧
      w.outcomes [.arrival 0 offer, .call (.edit 1 ⟨1, 0, ['R']⟩), .arrival 0 stop,
        .call (.pump 0)] = .ok (outcomes, w₁') ∧
      Resembles 0 alice 0 [⟨carol, some 2⟩] [] w₁ w₁' ∧ (w₁.document 0).text = ['a', 'R', 'b'] := by
  intro alice bob carol three offer stop
  have hrun : ∃ w ∈ (three.runAll [.start 0 alice none bob [] 0, .pump 1, .accept 1 1]).toOption,
      ∃ r ∈ (w.run (.edit 1 ⟨1, 0, ['R']⟩)).toOption,
      ∃ s ∈ (r.2.handleNext (World.write r.2.pendingReactions) 0).toOption,
      (0 < w.parties.slots.length ∧ (w.party 0).writing = false ∧ w.identity 0 = alice) ∧
      (∀ u ∈ [w, r.2], u.pendingReactions = 0 ∧ (u.party 0).endpoint = 0 ∧
        0 < u.network.endpoints.slots.length) ∧
      (∀ u ∈ [r.2, s.2], (u.phase 0).other = some bob) ∧ (∀ u ∈ [w, s.2], u.mailbox 0 = []) ∧
      (r.2.mailbox 0).length = 1 ∧ r.2.refusals 0 offer = [⟨carol, some 2⟩] ∧
      s.2.refusals 0 stop = [] ∧ (∃ next ∈ s.1.toOption, next.isSome) ∧
      (s.2.document 0).text = ['a', 'R', 'b'] := by
    decide +kernel
  obtain ⟨w, hw, ⟨_, w₁⟩, hedit, ⟨next, w₂⟩, hnext, ⟨hp, hfree, hour⟩, hfacts, hother, hempty,
    hone, hoffer, hstop, htaken, htext⟩ := hrun
  simp only [List.forall_mem_cons, List.not_mem_nil, false_imp_iff, implies_true, and_true]
    at hfacts hother hempty
  obtain ⟨⟨hinert, hown, hlt⟩, hinert₁, hown₁, hlt₁⟩ := hfacts
  obtain ⟨taken, htaken, hsome⟩ := htaken
  obtain ⟨result, rfl⟩ := Option.isSome_iff_exists.1 hsome
  obtain rfl : next = .ok (some result) := eq_ok_of_mem_toOption htaken
  have hstopped : Drains 0 bob (World.write w₁.pendingReactions) w₂ [⟨0, stop⟩] 1
      (w₂.refusals 0 stop ++ []) w₂ := by
    refine .outsider hother.2 rfl (by decide) ?_
    rw [World.insertStops_of_refusals hstop]
    exact .done hempty.2
  have hdrains : Drains 0 bob (World.write w₁.pendingReactions) w₁ [⟨0, offer⟩, ⟨1, stop⟩] 3
      (w₁.refusals 0 offer ++ []) w₂ := by
    refine .outsider hother.1 rfl (by decide) ?_
    rw [World.insertStops, hoffer, hown₁]
    rw [hstop] at hstopped
    exact .own rfl (eq_ok_of_mem_toOption hnext) hstopped
  obtain ⟨count, hpump⟩ := hdrains.exists_pumpFrom 0 (show 3 < Word.count by decide)
  have hpumped : Interleaved 0 bob w₁ [⟨0, offer⟩] [.call (.pump 0)]
      [.arrival (w₁.party 0).endpoint stop, .call (.pump 0)] (w₁.refusals 0 offer ++ [] ++ []) w₂
        [] := by
    refine .queued (hown₁.symm ▸ hlt₁) ?_
    rw [hone]
    exact .drain (fun c hc => absurd hc (World.not_waits_of_pendingReactions hinert₁ c)) (.inl rfl)
      hdrains (by decide) (World.run_of_pump hpump) (.done w₂ [])
  rw [hoffer, hown₁] at hpumped
  have hqueued : Interleaved 0 bob w [] [.call (.edit 1 ⟨1, 0, ['R']⟩), .call (.pump 0)]
      [.arrival (w.party 0).endpoint offer, .call (.edit 1 ⟨1, 0, ['R']⟩), .arrival 0 stop,
        .call (.pump 0)] [⟨carol, some 2⟩] w₂ [] := by
    refine .queued (hown.symm ▸ hlt) ?_
    rw [hempty.1]
    refine .call (.inr ?_) (eq_ok_of_mem_toOption hedit) hpumped
    rintro c (rfl | hc)
    · rintro ⟨q, ⟨⟩, -⟩
    · exact absurd hc (World.not_waits_of_pendingReactions hinert c)
  rw [hown] at hqueued
  have htaker : ∀ c, .call c ∈ [Input.call (.edit 1 ⟨1, 0, ['R']⟩), Input.call (.pump 0)] →
      ∀ q, c.taker? = some q → w.TakesFrom 0 c := by
    simp only [List.mem_cons, Input.call.injEq, List.not_mem_nil, or_false]
    rintro c (rfl | rfl) q hq
    · cases hq
    · exact ⟨0, rfl, rfl⟩
  obtain ⟨-, outcomes, w₂', hlast, hresembles, -⟩ := undisturbed_by_outsiders hp hfree hqueued
    fun c hc hnot q hq => by
      rcases hc with hc | hc
      · exact absurd (htaker c hc q hq) hnot
      · exact absurd hc (World.not_waits_of_pendingReactions hinert c)
  rw [hour, hown] at hresembles
  exact ⟨w, w₂, outcomes, w₂', eq_ok_of_mem_toOption hw, hlast, hresembles, htext⟩

end PairEdit.Session
