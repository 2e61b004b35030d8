import PairEdit.Proofs.Silence

/-!
# The two loops over what has arrived

`pump` and `serve` handle the same arrivals with the same function and differ only at the end
of a closed endpoint.  There `pump` reports that the endpoint is closed, and `serve` first
treats the peer of the session as gone.  So the two leave the same world exactly when nothing
that is queued leaves a session or an offer behind, which a queue that holds the peer's farewell
does not; otherwise only `serve` makes the party idle.
-/

namespace PairEdit.Session

open World

namespace World

variable {w w' : World} {p : Nat} {write : Writer}

/-- No more can arrive for a party than what is queued for it. -/
def IsDetached (w : World) (p : Nat) : Prop :=
  (w.network.endpoint (w.party p).endpoint).attached = false

instance (w : World) (p : Nat) : Decidable (w.IsDetached p) :=
  inferInstanceAs (Decidable (_ = false))

/-- The peer of the session or offer counts as gone, if there is one. -/
def hangUp (w : World) (p : Nat) : World :=
  match (w.phase p).other with
  | some other => w.handleDisconnect p other
  | none => w

/-- What `serve` makes of what `pump` comes to. -/
def conclude (p : Nat) : Except ShareError Nat × World → Bool × World
  | (.error _, w) => (true, w.hangUp p)
  | (.ok _, w) => (false, w)

theorem other_eq_none_iff {phase : Phase} : phase.other = none ↔ phase = .idle := by
  cases phase <;> simp [Phase.other]

theorem hangUp_of_idle (h : w.phase p = .idle) : w.hangUp p = w := by
  rw [hangUp, h]
  rfl

theorem hangUp_of_other {other : PeerId} (h : (w.phase p).other = some other) :
    w.hangUp p = w.handleDisconnect p other := by
  rw [hangUp, h]

theorem phase_hangUp (w : World) (p : Nat) : (w.hangUp p).phase p = .idle := by
  cases hother : (w.phase p).other with
  | none =>
      have hidle := other_eq_none_iff.1 hother
      rw [hangUp_of_idle hidle, hidle]
  | some other => rw [hangUp_of_other hother, phase_handleDisconnect, if_pos hother]

/-! ## One loop in terms of the other -/

/-- The loops stop after the same arrivals, whatever these lead to. -/
theorem serveWithin_eq (write : Writer) (p fuel handled : Nat) (w : World) :
    (serveWithin write p fuel w).toOption =
      (pumpFrom write p handled fuel w).toOption.map (conclude p) := by
  induction fuel generalizing handled w with
  | zero => rfl
  | succ fuel ih =>
      simp only [serveWithin, pumpFrom]
      cases w.handleNext write p with
      | error fault => rfl
      | ok next =>
          obtain ⟨taken, w₁⟩ := next
          cases taken with
          | error reason =>
              cases hother : (w₁.phase p).other with
              | none =>
                  simp only [bind, Except.bind, hother, pure, Except.pure, Except.toOption,
                    Option.map_some, conclude, hangUp]
              | some other =>
                  simp only [bind, Except.bind, hother, pure, Except.pure, Except.toOption,
                    Option.map_some, conclude, hangUp]
          | ok taken =>
              cases taken with
              | none => rfl
              | some result => exact ih (handled + 1) w₁

theorem serve_of_pump {result : Except ShareError Nat} (h : w.pump write p = .ok (result, w')) :
    w.serve write p = .ok (conclude p (result, w')) := by
  have heq := serveWithin_eq write p Word.count 0 w
  rw [show pumpFrom write p 0 Word.count w = .ok (result, w') from h] at heq
  exact eq_ok_of_mem_toOption heq

theorem exists_pump_of_serve {closed : Bool} (h : w.serve write p = .ok (closed, w')) :
    ∃ result w₁, w.pump write p = .ok (result, w₁) ∧ conclude p (result, w₁) = (closed, w') := by
  have heq := serveWithin_eq write p Word.count 0 w
  rw [show serveWithin write p Word.count w = .ok (closed, w') from h] at heq
  obtain ⟨⟨result, w₁⟩, hpump, hconclude⟩ := Option.map_eq_some_iff.1 heq.symm
  exact ⟨result, w₁, eq_ok_of_mem_toOption hpump, hconclude⟩

end World

/-! ## An endpoint that is closed -/

theorem attached_modify (n : Network) (f : Endpoint → Endpoint)
    (hf : ∀ e, (f e).attached = e.attached) (j id : Nat) :
    ((n.modify j f).endpoint id).attached = (n.endpoint id).attached := by
  by_cases hj : id = j
  · subst hj
    rw [Network.modify, Network.endpoint, Table.get_modify_self, hf]
    rfl
  · rw [Network.modify, Network.endpoint, Table.get_modify_of_ne _ _ hj]
    rfl

theorem attached_disconnect {n : Network} {id : Nat} (peer : PeerId)
    (h : (n.endpoint id).attached = false) :
    ((n.disconnect peer).endpoint id).attached = false := by
  unfold Network.disconnect
  split
  · simp only [Network.endpoint, Table.get, List.getElem?_map] at h ⊢
    cases hslot : n.endpoints.slots[id]? with
    | none => rfl
    | some e =>
        rw [hslot] at h
        have hclosed : e.attached = false := h
        simp [Network.Endpoint.leave, hclosed]
  · exact h

/-- No endpoint is attached again. -/
theorem WorldStep.attached {w w' : World} (h : WorldStep w w') {id : Nat}
    (hid : (w.network.endpoint id).attached = false) :
    (w'.network.endpoint id).attached = false := by
  cases h with
  | text | unhook | note | emit | stay | offer | absorb | retune | initiate | join => exact hid
  | send p peer m =>
      rw [endpoint_send]
      exact hid
  | receive p =>
      unfold World.receive Network.receive
      dsimp only
      split
      · next arrival rest _ =>
          exact (attached_modify w.network (fun e => { e with queue := rest }) (fun _ => rfl) _
            id).trans hid
      · exact hid
  | disconnect peer => exact attached_disconnect peer hid
  | release j =>
      exact (attached_modify w.network (fun e => { e with held := false }) (fun _ => rfl) j
        id).trans hid
  | vacate p => rwa [network_vacate]
  | suspend p l s => rwa [World.suspend, network_detach, network_setPhase]
  | resume p epoch =>
      obtain ⟨heq, -⟩ | ⟨l, -, -, -, heq⟩ := w.resume_cases p epoch
      · rwa [heq]
      · rw [heq]
        exact hid

namespace World

variable {w w' : World} {p : Nat} {write : Writer}

theorem IsDetached.worldSteps (h : w.IsDetached p) (hsteps : WorldSteps w w') :
    w'.IsDetached p := by
  rw [IsDetached, hsteps.endpoint_eq]
  exact hsteps.invariant (P := fun v => (v.network.endpoint (w.party p).endpoint).attached = false)
    (fun hstep hid => hstep.attached hid) (fun _ _ hid => hid) h

/-- At the end of its queue the endpoint is closed. -/
theorem IsDetached.handleNext (h : w.IsDetached p)
    {result : Except SyncError (Option (Except ShareError Unit))}
    (hnext : w.handleNext write p = .ok (result, w')) :
    result = .error .channelClosed ∨ ∃ outcome, result = .ok (some outcome) := by
  unfold World.handleNext World.receive Network.receive at hnext
  dsimp only at hnext
  rw [show (w.network.endpoint (w.party p).endpoint).attached = false from h] at hnext
  cases hqueue : (w.network.endpoint (w.party p).endpoint).queue with
  | nil =>
      rw [hqueue] at hnext
      cases hnext
      exact .inl rfl
  | cons arrival rest =>
      rw [hqueue] at hnext
      obtain ⟨⟨outcome, w₁⟩, -, hnext⟩ := bind_eq_ok_iff.1 hnext
      cases hnext
      exact .inr ⟨outcome, rfl⟩

theorem IsDetached.pumpFrom (hwrite : WriterKeeps WorldSteps write) (h : w.IsDetached p)
    {handled fuel : Nat} {result : Except ShareError Nat}
    (hpump : pumpFrom write p handled fuel w = .ok (result, w')) :
    result = .error (.sync .channelClosed) := by
  induction fuel generalizing handled w with
  | zero => cases hpump
  | succ fuel ih =>
      obtain ⟨⟨next, w₁⟩, hnext, hpump⟩ := bind_eq_ok_iff.1 hpump
      obtain rfl | ⟨outcome, rfl⟩ := h.handleNext hnext
      · cases hpump
        rfl
      · exact ih (h.worldSteps (worldSteps_handleNext hwrite hnext)) hpump

end World

/-! ## Draining a closed endpoint -/

variable {w w' : World} {p depth : Nat}

/-- On a closed endpoint both loops handle all that is queued, and `pump` reports that it is
closed.  If no session or offer is left then, `serve` leaves the same world: the same phases,
documents with their listeners, events and messages.  If one is left, `serve` goes on as after
a disconnect of its peer.  So after `serve` the party is idle and captures nothing. -/
theorem loops_on_closed_endpoint (harises : w.Arises) (hdetached : w.IsDetached p) :
    (∀ result w₁, w.pump (World.write depth) p = .ok (result, w₁) →
      result = .error (.sync .channelClosed) ∧
      (w₁.phase p = .idle → w.serve (World.write depth) p = .ok (true, w₁) ∧
        ∀ d id epoch, ¬ w₁.HasCapture d id p epoch) ∧
      ∀ other, (w₁.phase p).other = some other →
        w.serve (World.write depth) p = .ok (true, w₁.handleDisconnect p other)) ∧
    ∀ closed w₂, w.serve (World.write depth) p = .ok (closed, w₂) →
      closed = true ∧ w₂.phase p = .idle ∧ (∀ d id epoch, ¬ w₂.HasCapture d id p epoch) ∧
      ∃ w₁, w.pump (World.write depth) p = .ok (.error (.sync .channelClosed), w₁) ∧
        w₂ = w₁.hangUp p := by
  have hclosed : ∀ {result w₁}, w.pump (World.write depth) p = .ok (result, w₁) →
      result = .error (.sync .channelClosed) :=
    fun hpump => hdetached.pumpFrom (worldSteps_write depth) hpump
  have hidle : ∀ {v : World}, WorldSteps w v → v.phase p = .idle →
      ∀ d id epoch, ¬ v.HasCapture d id p epoch :=
    fun hsteps hphase => (harises.worldSteps hsteps).subscribed.not_hasCapture hphase
  constructor
  · intro result w₁ hpump
    obtain rfl := hclosed hpump
    have hserve := serve_of_pump hpump
    rw [conclude] at hserve
    refine ⟨rfl, fun hphase => ⟨?_, ?_⟩, fun other hother => ?_⟩
    · rw [hserve, hangUp_of_idle hphase]
    · exact hidle (worldSteps_pumpFrom (worldSteps_write depth) hpump) hphase
    · rw [hserve, hangUp_of_other hother]
  · intro closed w₂ hserve
    have hsteps := worldSteps_serveWithin (worldSteps_write depth) hserve
    obtain ⟨result, w₁, hpump, hconclude⟩ := exists_pump_of_serve hserve
    obtain rfl := hclosed hpump
    cases hconclude
    exact ⟨rfl, phase_hangUp w₁ p, hidle hsteps (phase_hangUp w₁ p), w₁, hpump, rfl⟩

/-- The peer has refused the offer before the endpoint is closed. -/
theorem loops_on_closed_endpoint_refused :
    ∃ w w₁ : World, w.Arises ∧ w.IsDetached 0 ∧ (w.phase 0).isSharing = true ∧
      w.pump (World.write 0) 0 = .ok (.error (.sync .channelClosed), w₁) ∧
      w.serve (World.write 0) 0 = .ok (true, w₁) := by
  have hrun : ∃ w ∈ ((Pair.idle ['h', 'i'] .usual).world.runAll
        [.start 0 (.ofByte 0xA1) none (.ofByte 0xB0) [] 0, .handleNext 1, .decline 1,
          .disconnect (.ofByte 0xA1)]).toOption,
      w.IsDetached 0 ∧ (w.phase 0).isSharing = true ∧
        ∃ r ∈ (w.pump (World.write 0) 0).toOption, r.2.phase 0 = .idle := by
    decide +kernel
  obtain ⟨w, hw, hdetached, hsharing, ⟨result, w₁⟩, hpump, hphase⟩ := hrun
  have harises := (Arises.idle ['h', 'i'] .usual).runAll (eq_ok_of_mem_toOption hw)
  have hpump := eq_ok_of_mem_toOption hpump
  obtain ⟨rfl, hserve, -⟩ := (loops_on_closed_endpoint harises hdetached).1 _ _ hpump
  exact ⟨w, w₁, harises, hdetached, hsharing, hpump, (hserve hphase).1⟩

/-- A party offers its document and is taken off the network.  After `pump` has reported that
the endpoint is closed the offer is still there and edits are captured; after `serve` neither
is so, and the host is told. -/
theorem pump_keeps_session_on_closed_endpoint :
    ∃ w w₁ w₂ : World, w.Arises ∧ w.IsDetached 0 ∧
      w.pump (World.write 0) 0 = .ok (.error (.sync .channelClosed), w₁) ∧
      w.serve (World.write 0) 0 = .ok (true, w₂) ∧
      (w₁.phase 0).status = .pending .initiator ∧ (w₁.document 0).listeners.length = 1 ∧
      (w₂.phase 0).status = .idle ∧ (w₂.document 0).listeners.length = 0 ∧
      (w₂.party 0).events = (w₁.party 0).events ++ [.ended (.ofByte 0xB0) .disconnected] := by
  have hrun : ∃ w ∈ ((Pair.idle ['h', 'i'] .usual).world.runAll
        [.start 0 (.ofByte 0xA1) none (.ofByte 0xB0) [] 0, .disconnect (.ofByte 0xA1)]).toOption,
      w.IsDetached 0 ∧ ∃ r ∈ (w.pump (World.write 0) 0).toOption,
        ∃ s ∈ (w.serve (World.write 0) 0).toOption,
        r.1 = .error (.sync .channelClosed) ∧ s.1 = true ∧
        (r.2.phase 0).status = .pending .initiator ∧ (r.2.document 0).listeners.length = 1 ∧
        (s.2.phase 0).status = .idle ∧ (s.2.document 0).listeners.length = 0 ∧
        (s.2.party 0).events =
          (r.2.party 0).events ++ [.ended (.ofByte 0xB0) .disconnected] := by
    decide +kernel
  obtain ⟨w, hw, hdetached, ⟨result, w₁⟩, hpump, ⟨closed, w₂⟩, hserve, rfl, rfl, hafter⟩ := hrun
  have harises := (Arises.idle ['h', 'i'] .usual).runAll (eq_ok_of_mem_toOption hw)
  exact ⟨w, w₁, w₂, harises, hdetached, eq_ok_of_mem_toOption hpump,
    eq_ok_of_mem_toOption hserve, hafter⟩

end PairEdit.Session
