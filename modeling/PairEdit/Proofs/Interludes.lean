import PairEdit.Proofs.EffectsOfCalls

/-!
# Between calls

An interlude is a world in which no call is being made: what calls have led to that were made
one after another, with whatever hosts arrange and the network does in between.  No party writes
then, and every live session captures.
-/

namespace PairEdit.Session

open World

variable {reactive : Nat → Prop} {w w' : World} {p q d : Nat}

/-- What hosts and the network do between calls.  Hooks and listeners will only call these
parties, and a host takes off only listeners of its own. -/
inductive Arranged (reactive : Nat → Prop) (w : World) : World → Prop where
  | network (n : Network) : Arranged reactive w { w with network := n }
  | addParty (peer : PeerId) (config : Config) :
      Arranged reactive w (w.addParty peer config).2
  | addDocument (text : Text) : Arranged reactive w (w.addDocument text).2
  | listen (d : Nat) (script : List (List Call))
      (hcalls : ∀ now ∈ script, ∀ c ∈ now, ∀ q, c.party? = some q → reactive q) :
      Arranged reactive w (w.listen d script).2
  | unlisten (d id : Nat) (hown : ∀ q epoch, ¬ w.HasCapture d id q epoch) :
      Arranged reactive w (w.unlisten d id)
  | arm (d : Nat) (hook : Hook) (hcalls : ∀ c ∈ hook.calls, ∀ q, c.party? = some q → reactive q) :
      Arranged reactive w (w.arm d hook)
  | release (q : Nat) : Arranged reactive w (w.release q)
  | releaseDocument (d : Nat) : Arranged reactive w (w.releaseDocument d)
  | read (q : Nat) (events : List Event) :
      Arranged reactive w (w.modifyParty q fun party => { party with events := events })

/-- The worlds between calls.  Reactions may be nested however deep they are. -/
inductive World.Interlude (reactive : Nat → Prop) : World → Prop where
  | empty : Interlude reactive .empty
  | arranged {w w' : World} (h : w.Interlude reactive) (harranged : Arranged reactive w w') :
      Interlude reactive w'
  | call {w w' : World} {depth : Nat} {c : Call} {outcome : Outcome} (h : w.Interlude reactive)
      (hcall : perform (World.write depth) c w = .ok (outcome, w')) : Interlude reactive w'

namespace Arranged

theorem parties_length_le (h : Arranged reactive w w') :
    w.parties.slots.length ≤ w'.parties.slots.length := by
  cases h with
  | network | addDocument | listen | unlisten => exact Nat.le_refl _
  | addParty peer config => simp [World.addParty, World.addEndpoint, Table.push]
  | arm d hook => exact (worldSteps_collect (w.setHook d (some hook))).parties_length_le
  | release q =>
      refine Nat.le_trans ?_ (worldSteps_collect _).parties_length_le
      rw [World.modifyParty, Table.length_modify]
      exact Nat.le_max_left ..
  | releaseDocument d =>
      exact (worldSteps_collect { w with
        surfaces := w.surfaces.modify d fun s => { s with released := true } }).parties_length_le
  | read q events =>
      rw [World.modifyParty, Table.length_modify]
      exact Nat.le_max_left ..

/-! ## What is arranged -/

theorem arises (h : Arranged reactive w w') (hw : w.Arises) : w'.Arises := by
  cases h with
  | network n => exact hw.network n
  | addParty peer config => exact hw.addParty peer config
  | addDocument text => exact hw.addDocument text
  | listen d script => exact hw.listen d script
  | unlisten d id => exact hw.unlisten d id
  | arm d hook => exact hw.arm d hook
  | release q => exact hw.release q
  | releaseDocument d => exact hw.releaseDocument d
  | read q events => exact hw.events q events

/-- A party that the host holds on to is as it was, but that its events may have been read. -/
theorem apply_party_eq {α : Type} {π : Party → α} (h : Arranged reactive w w')
    (hevents : ∀ party events, π { party with events := events } = π party)
    (hp : p < w.parties.slots.length) (hheld : (w'.party p).released = false) :
    π (w'.party p) = π (w.party p) := by
  cases h with
  | network | addDocument | listen | unlisten => rfl
  | addParty peer config =>
      simp only [World.addParty, World.party, World.addEndpoint, Table.get_push]
      rw [if_neg (Nat.ne_of_lt hp)]
  | arm d hook =>
      have hkeeps := KeepsOthers.collect (fun _ => False) (w.setHook d (some hook))
      obtain heq | ⟨hreleased, heq⟩ := hkeeps.party p not_false
      · exact congrArg π heq
      · rw [World.arm, heq] at hheld
        cases hreleased.symm.trans hheld
  | release q =>
      have hkeeps := KeepsOthers.collect (fun _ => False)
        (w.modifyParty q fun party => { party with released := true })
      obtain heq | ⟨hreleased, heq⟩ := hkeeps.party p not_false
      · by_cases hq : p = q
        · subst hq
          rw [World.release, heq, party_modifyParty_self] at hheld
          cases hheld
        · rw [World.release, heq, party_modifyParty_of_ne w _ hq]
      · rw [World.release, heq] at hheld
        cases hreleased.symm.trans hheld
  | releaseDocument d =>
      have hkeeps := KeepsOthers.collect (fun _ => False) { w with
        surfaces := w.surfaces.modify d fun s => { s with released := true } }
      obtain heq | ⟨hreleased, heq⟩ := hkeeps.party p not_false
      · exact congrArg π heq
      · rw [World.releaseDocument, heq] at hheld
        cases hreleased.symm.trans hheld
  | read q events => exact apply_party_modifyParty (fun party => hevents party _) q p

/-- The phase, the lock and the number of sessions of every party are as they were, until what
nobody can reach any more is let go of. -/
theorem exists_collect (h : Arranged reactive w w') : ∃ v : World, (w' = v ∨ w' = v.collect) ∧
    ∀ q, v.phase q = w.phase q ∧ (v.party q).writing = (w.party q).writing ∧
      (v.party q).epochs = (w.party q).epochs := by
  have hmodify : ∀ r (f : Party → Party), (∀ party, (f party).phase = party.phase) →
      (∀ party, (f party).writing = party.writing) →
      (∀ party, (f party).epochs = party.epochs) → ∀ q,
      (w.modifyParty r f).phase q = w.phase q ∧
        ((w.modifyParty r f).party q).writing = (w.party q).writing ∧
        ((w.modifyParty r f).party q).epochs = (w.party q).epochs :=
    fun r _ hphase hwriting hepochs q =>
      ⟨apply_party_modifyParty (π := Party.phase) hphase r q,
        apply_party_modifyParty (π := Party.writing) hwriting r q,
        apply_party_modifyParty (π := Party.epochs) hepochs r q⟩
  cases h with
  | network | addDocument | listen | unlisten => exact ⟨_, .inl rfl, fun _ => ⟨rfl, rfl, rfl⟩⟩
  | addParty peer config =>
      refine ⟨_, .inl rfl, fun q => ⟨?_, ?_, ?_⟩⟩
      · exact apply_party_addParty (π := Party.phase) w peer (fun _ => rfl) q
      · exact apply_party_addParty (π := Party.writing) w peer (fun _ => rfl) q
      · exact apply_party_addParty (π := Party.epochs) w peer (fun _ => rfl) q
  | arm d hook => exact ⟨w.setHook d (some hook), .inr rfl, fun _ => ⟨rfl, rfl, rfl⟩⟩
  | release r =>
      exact ⟨_, .inr rfl, hmodify r _ (fun _ => rfl) (fun _ => rfl) fun _ => rfl⟩
  | releaseDocument d =>
      exact ⟨{ w with surfaces := w.surfaces.modify d fun s => { s with released := true } },
        .inr rfl, fun _ => ⟨rfl, rfl, rfl⟩⟩
  | read r events =>
      exact ⟨_, .inl rfl, hmodify r _ (fun _ => rfl) (fun _ => rfl) fun _ => rfl⟩

/-- A phase is as it was, or idle. -/
theorem phase_eq (h : Arranged reactive w w') (q : Nat) :
    w'.phase q = w.phase q ∨ w'.phase q = .idle := by
  obtain ⟨v, rfl | rfl, hv⟩ := h.exists_collect
  · exact .inl (hv q).1
  · rw [← (hv q).1]
    exact (KeepsOthers.collect (fun _ => False) v).phase_eq not_false

theorem writing_eq (h : Arranged reactive w w') (q : Nat) :
    (w'.party q).writing = (w.party q).writing := by
  obtain ⟨v, rfl | rfl, hv⟩ := h.exists_collect
  · exact (hv q).2.1
  · exact ((worldSteps_collect v).writing_eq q).trans (hv q).2.1

/-- A party that is there keeps to the same limits. -/
theorem limits_eq (h : Arranged reactive w w') (hp : p < w.parties.slots.length) :
    w'.limits p = w.limits p := by
  have hmodify : ∀ q (f : Party → Party), (∀ party, (f party).config = party.config) →
      (w.modifyParty q f).limits p = w.limits p := fun q f hf =>
    congrArg Config.limits (apply_party_modifyParty (π := Party.config) hf q p)
  cases h with
  | network | addDocument | listen | unlisten => rfl
  | addParty peer config =>
      have hne : (w.addParty peer config).1 ≠ p := (Nat.ne_of_lt hp).symm
      exact congrArg (fun party => party.config.limits) (party_addParty_of_ne hne)
  | arm d hook => exact (worldSteps_collect (w.setHook d (some hook))).limits_eq p
  | release q => exact ((worldSteps_collect _).limits_eq p).trans (hmodify q _ fun _ => rfl)
  | releaseDocument d => exact (worldSteps_collect _).limits_eq p
  | read q events => exact hmodify q _ fun _ => rfl

theorem epochs_le (h : Arranged reactive w w') (q : Nat) :
    (w.party q).epochs ≤ (w'.party q).epochs := by
  obtain ⟨v, rfl | rfl, hv⟩ := h.exists_collect
  · exact Nat.le_of_eq (hv q).2.2.symm
  · rw [← (hv q).2.2]
    exact (worldSteps_collect v).epochs_le q

/-- A session that is between these peers stays so. -/
theorem assigns (h : Arranged reactive w w') {epoch : Nat} {participants : Participants}
    (hw : w.Assigns p epoch participants) : w'.Assigns p epoch participants := by
  refine ⟨Nat.le_trans hw.le (h.epochs_le p), fun l hlive => ?_⟩
  obtain heq | hidle := h.phase_eq p
  · exact hw.eq l (heq ▸ hlive)
  · cases hidle.symm.trans hlive

/-- The calls that wait are those that waited, and calls to these parties. -/
theorem waits (h : Arranged reactive w w') {c : Call} (hc : w'.Waits c) :
    w.Waits c ∨ ∀ q, c.party? = some q → reactive q := by
  cases h with
  | network | addParty | read => exact .inl hc
  | addDocument text =>
      obtain ⟨d, hook, hhook, hmem⟩ | hscript := hc
      · simp only [World.addDocument, Table.get_push] at hhook
        split at hhook
        · cases hhook
        · exact .inl (.inl ⟨d, hook, hhook, hmem⟩)
      · exact .inl (.inr hscript)
  | listen d script hcalls =>
      obtain ⟨e, hook, hhook, hmem⟩ | ⟨i, now, hnow, hmem⟩ := hc
      · have hsame := hook_setDocument { w with scripts := (w.scripts.push script).2 } d e
          ((w.document d).listen (.host (w.scripts.push script).1)).2
        exact .inl (.inl ⟨e, hook, hsame.symm.trans hhook, hmem⟩)
      · have hscripts : (w.listen d script).2.scripts = (w.scripts.push script).2 := rfl
        rw [hscripts, Table.get_push] at hnow
        split at hnow
        · exact .inr (hcalls now hnow c hmem)
        · exact .inl (.inr ⟨i, now, hnow, hmem⟩)
  | unlisten d id =>
      exact .inl (hc.of_le (fun e => .inl (hook_setDocument w d e _)) fun _ _ hnow => hnow)
  | arm d hook hcalls =>
      have hset : (w.setHook d (some hook)).Waits c := (Silent.collect _).waits hc
      obtain ⟨e, hook', hhook, hmem⟩ | hscript := hset
      · by_cases he : e = d
        · subst he
          rw [World.setHook, Table.get_modify_self] at hhook
          cases hhook
          exact .inr (hcalls c hmem)
        · rw [World.setHook, Table.get_modify_of_ne _ _ he] at hhook
          exact .inl (.inl ⟨e, hook', hhook, hmem⟩)
      · exact .inl (.inr hscript)
  | release q =>
      have hletGo : (w.modifyParty q fun party => { party with released := true }).Waits c :=
        (Silent.collect _).waits hc
      exact .inl hletGo
  | releaseDocument d =>
      have hletGo : { w with
          surfaces := w.surfaces.modify d fun s => { s with released := true } }.Waits c :=
        (Silent.collect _).waits hc
      refine .inl (hletGo.of_le (fun e => .inl ?_) fun _ _ hnow => hnow)
      by_cases he : e = d
      · subst he
        rw [Table.get_modify_self]
      · rw [Table.get_modify_of_ne _ _ he]

end Arranged

/-! ## What is true between calls -/

namespace World.Interlude

theorem arises (h : w.Interlude reactive) : w.Arises := by
  induction h with
  | empty => exact .empty
  | arranged _ harranged ih => exact harranged.arises ih
  | call _ hcall ih => exact ih.worldSteps (worldSteps_perform hcall)

theorem ready (h : w.Interlude reactive) : Ready reactive w := by
  refine ⟨h.arises.subscribed, ?_⟩
  induction h with
  | empty => exact fun c hc => absurd hc (by rintro (⟨_, _, ⟨⟩, -⟩ | ⟨_, _, ⟨⟩, -⟩))
  | arranged _ harranged ih =>
      exact fun c hc => (harranged.waits hc).elim (ih c) fun hreactive => hreactive
  | call h hcall ih =>
      have heffect : CallEffect reactive (fun _ => True) _ _ :=
        .perform (callEffects_write reactive _) ⟨h.arises.subscribed, ih⟩
          (fun _ _ => trivial) (fun _ _ => trivial) hcall
      exact fun c hc => ih c (heffect.waits hc)

/-- The effect of a call in which any party may be called. -/
theorem callEffect (h : w.Interlude reactive) {depth : Nat} {c : Call} {outcome : Outcome}
    (hcall : perform (World.write depth) c w = .ok (outcome, w')) :
    CallEffect reactive (fun _ => True) w w' :=
  .perform (callEffects_write reactive depth) h.ready (fun _ _ => trivial)
    (fun _ _ => trivial) hcall

/-- No party writes. -/
theorem writing_eq_false (h : w.Interlude reactive) (q : Nat) : (w.party q).writing = false := by
  induction h with
  | empty => rfl
  | arranged _ harranged ih => exact (harranged.writing_eq q).trans ih
  | call _ hcall ih => exact ((worldSteps_perform hcall).writing_eq q).trans ih

/-- Every live session captures. -/
theorem pausesOnly (h : w.Interlude reactive) (q : Nat) : w.PausesOnly q fun _ => False := by
  induction h with
  | empty => exact .of_idle rfl
  | arranged _ harranged ih =>
      obtain heq | hidle := harranged.phase_eq q
      · exact ih.of_phase_eq heq
      · exact .of_idle hidle
  | call h hcall ih => exact (h.callEffect hcall).pausesOnly ih

theorem idle (text : Text) (config : Config) : (Pair.idle text config).world.Interlude reactive :=
  .arranged (.arranged (.arranged (.arranged .empty (.addParty ..)) (.addParty ..))
    (.addDocument ..)) (.addDocument ..)

theorem run (h : w.Interlude reactive) {c : Call} {outcome : Outcome}
    (hrun : w.run c = .ok (outcome, w')) : w'.Interlude reactive :=
  .call h hrun

theorem runAll (h : w.Interlude reactive) {calls : List Call} (hrun : w.runAll calls = .ok w') :
    w'.Interlude reactive := by
  induction calls generalizing w with
  | nil =>
      cases hrun
      exact h
  | cons c rest ih =>
      obtain ⟨⟨outcome, v⟩, hcall, hrun⟩ := bind_eq_ok_iff.1 hrun
      exact ih (h.run hcall) hrun

end World.Interlude

end PairEdit.Session
