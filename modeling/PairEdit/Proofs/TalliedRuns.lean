import PairEdit.Proofs.Reports

/-!
# A party through all its sessions

A tallied run is all that happens to one party: calls of its host, of which any number may begin,
join and end sessions, and between them whatever becomes of the network, of other documents and of
listeners.  Along every run each edit of the host on the shared document is reported once, with
its number in the session and the number of the peer's edits taken in.
-/

namespace PairEdit.Session

open World

/-! ## What goes on between calls -/

/-- What may happen between the calls of one host.  Nothing is asked of the network. -/
inductive Meanwhile (p : Nat) (w : World) : World → Prop where
  | network (n : Network) : Meanwhile p w { w with network := n }
  | addParty (peer : PeerId) (config : Config) (hp : (w.addParty peer config).1 ≠ p) :
      Meanwhile p w (w.addParty peer config).2
  | addDocument (text : Text) : Meanwhile p w (w.addDocument text).2
  | listen (d : Nat) (script : List (List Call))
      (havoids : ∀ now ∈ script, ∀ c ∈ now, c.Avoids (w.phase p)) :
      Meanwhile p w (w.listen d script).2
  /-- The host takes off only listeners of its own. -/
  | unlisten (d id : Nat) (hown : ∀ q epoch, ¬ w.HasCapture d id q epoch) :
      Meanwhile p w (w.unlisten d id)
  | arm (d : Nat) (hook : Hook) (havoids : ∀ c ∈ hook.calls, c.Avoids (w.phase p)) :
      Meanwhile p w (w.arm d hook)
  | release (q : Nat) (hq : q ≠ p) : Meanwhile p w (w.release q)
  | releaseDocument (d : Nat) : Meanwhile p w (w.releaseDocument d)
  | read (q : Nat) (events : List Event) :
      Meanwhile p w (w.modifyParty q fun party => { party with events := events })

variable {w w' : World} {p d : Nat} {t t' : Tally}

/-- The calls that wait after something new does are the old ones and the new. -/
theorem World.Passive.of_new (hw : w.Passive p) {new : Call → Prop}
    (hwaits : ∀ c, w'.Waits c → w.Waits c ∨ new c) (hnew : ∀ c, new c → c.Avoids (w.phase p))
    (hparty : ∀ q, w'.party q = w.party q) : w'.Passive p where
  party c hc := (hwaits c hc).elim (hw.party c) fun hc => (hnew c hc).party
  spares d hd c hc := by
    rw [World.phase, hparty] at hd
    exact (hwaits c hc).elim (hw.spares d hd c) fun hc => (hnew c hc).document d hd
  idle q hq := by
    rw [World.phase, hparty]
    exact hw.idle q hq
  strategy := by rw [hparty, hw.strategy]
  held := by rw [hparty, hw.held]

namespace BetweenCalls

/-- A party keeps its count as long as its session and its captures are not touched. -/
theorem of_eq (h : BetweenCalls p w t) (harises : w'.Arises) (hpassive : w'.Passive p)
    (hphase : w'.phase p = w.phase p)
    (hcaptures : ∀ d, captures (w'.document d) = captures (w.document d)) : BetweenCalls p w' t :=
  ⟨harises, hpassive, h.tallied.congr hphase hcaptures⟩

theorem of_apart (h : BetweenCalls p w t) (harises : w'.Arises) (hapart : Apart w w') :
    BetweenCalls p w' t :=
  h.of_eq harises (hapart.passive h.passive) (hapart.phase_eq p) hapart.captures_eq

theorem listen (h : BetweenCalls p w t) {script : List (List Call)}
    (havoids : ∀ now ∈ script, ∀ c ∈ now, c.Avoids (w.phase p)) :
    BetweenCalls p (w.listen d script).2 t := by
  have hwaits : ∀ c, (w.listen d script).2.Waits c →
      w.Waits c ∨ ∃ now ∈ script, c ∈ now := by
    rintro c (⟨e, hook, hhook, hc⟩ | ⟨i, now, hnow, hc⟩)
    · exact .inl (.inl ⟨e, hook, (hook_setDocument _ d e _).symm.trans hhook, hc⟩)
    · simp only [World.listen, World.setDocument, Table.get_push] at hnow
      split at hnow
      · exact .inr ⟨now, hnow, hc⟩
      · exact .inl (.inr ⟨i, now, hnow, hc⟩)
  have hpassive : (w.listen d script).2.Passive p :=
    h.passive.of_new hwaits (fun c hc => by
      obtain ⟨now, hnow, hc⟩ := hc
      exact havoids now hnow c hc) fun _ => rfl
  refine h.of_eq (.listen h.arises d script) hpassive rfl fun e => ?_
  by_cases he : e = d
  · subst he
    rw [World.listen]
    dsimp only
    rw [document_setDocument_self, captures_listen]
    simp [Subscriber.isCapture]
  · rw [World.listen]
    dsimp only
    rw [document_setDocument_of_ne _ _ he]
    rfl

theorem unlisten (h : BetweenCalls p w t) {id : Nat}
    (hown : ∀ q epoch, ¬ w.HasCapture d id q epoch) :
    BetweenCalls p (w.unlisten d id) t := by
  have hpassive : (w.unlisten d id).Passive p :=
    h.passive.of_le (fun _ hc => hc.of_le (fun e => .inl (hook_setDocument w d e _))
      fun _ _ hnow => hnow) h.passive.spares (fun _ _ hidle => hidle) rfl rfl
  refine h.of_eq (.unlisten h.arises d id) hpassive rfl fun e => ?_
  by_cases he : e = d
  · subst he
    rw [World.unlisten, document_setDocument_self, captures_unlisten]
    refine List.filter_eq_self.2 fun l hl => ?_
    obtain ⟨hmem, hcapture⟩ := List.mem_filter.1 hl
    obtain ⟨j, subscriber⟩ := l
    cases subscriber with
    | host i => cases hcapture
    | capture q epoch =>
        rw [bne_iff_ne]
        rintro rfl
        exact hown q epoch hmem
  · rw [World.unlisten, document_setDocument_of_ne w _ he]

theorem arm (h : BetweenCalls p w t) {hook : Hook}
    (havoids : ∀ c ∈ hook.calls, c.Avoids (w.phase p)) :
    BetweenCalls p (w.arm d hook) t := by
  have hwaits : ∀ c, (w.setHook d (some hook)).Waits c → w.Waits c ∨ c ∈ hook.calls := by
    rintro c (⟨e, hook', hhook, hc⟩ | hc)
    · by_cases he : e = d
      · subst he
        simp only [World.setHook, Table.get_modify_self, Option.some.injEq] at hhook
        exact .inr (hhook ▸ hc)
      · simp only [World.setHook, Table.get_modify_of_ne _ _ he] at hhook
        exact .inl (.inl ⟨e, hook', hhook, hc⟩)
    · exact .inl (.inr hc)
  have hpassive : (w.setHook d (some hook)).Passive p :=
    h.passive.of_new hwaits havoids fun _ => rfl
  have harmed : BetweenCalls p (w.setHook d (some hook)) t := by
    refine h.of_eq (.setHook h.arises d _) hpassive rfl fun e => ?_
    by_cases he : e = d
    · subst he
      simp [World.document, World.setHook]
    · simp [World.document, World.setHook, Table.get_modify_of_ne _ _ he]
  exact harmed.of_apart (h.arises.arm d hook) (.collect hpassive)

theorem release (h : BetweenCalls p w t) {q : Nat} (hq : q ≠ p) :
    BetweenCalls p (w.release q) t := by
  let letGo : World := w.modifyParty q fun party => { party with released := true }
  have hphase : ∀ r, letGo.phase r = w.phase r :=
    apply_party_modifyParty (π := Party.phase)
      (f := fun party => { party with released := true }) (fun _ => rfl) q
  have hpassive : letGo.Passive p := by
    have hparty : letGo.party p = w.party p := party_modifyParty_of_ne w _ hq.symm
    refine h.passive.of_le (fun _ hc => hc) ?_ (fun r _ hidle => (hphase r).trans hidle)
      (congrArg Party.config hparty) (congrArg Party.released hparty)
    rw [hphase]
    exact h.passive.spares
  have hletGo : BetweenCalls p letGo t :=
    h.of_eq (.letGo h.arises q) hpassive (hphase p) fun _ => rfl
  exact hletGo.of_apart (h.arises.release q) (.collect hpassive)

theorem releaseDocument (h : BetweenCalls p w t) : BetweenCalls p (w.releaseDocument d) t := by
  let letGo : World :=
    { w with surfaces := w.surfaces.modify d fun s => { s with released := true } }
  have hsurface : ∀ e, (letGo.surfaces.get e).hook = (w.surfaces.get e).hook ∧
      letGo.document e = w.document e := by
    intro e
    by_cases he : e = d
    · subst he
      simp [letGo, World.document]
    · simp [letGo, World.document, Table.get_modify_of_ne _ _ he]
  have hpassive : letGo.Passive p :=
    h.passive.of_le (fun _ hc => hc.of_le (fun e => .inl (hsurface e).1) fun _ _ hnow => hnow)
      h.passive.spares (fun _ _ hidle => hidle) rfl rfl
  have hletGo : BetweenCalls p letGo t :=
    h.of_eq (.letGoDocument h.arises d) hpassive rfl fun e => congrArg captures (hsurface e).2
  exact hletGo.of_apart (h.arises.releaseDocument d) (.collect hpassive)

theorem read (h : BetweenCalls p w t) (q : Nat) (events : List Event) :
    BetweenCalls p (w.modifyParty q fun party => { party with events := events }) t := by
  have hphase : ∀ r, (w.modifyParty q fun party => { party with events := events }).phase r =
      w.phase r :=
    apply_party_modifyParty (π := Party.phase) (f := fun party => { party with events := events })
      (fun _ => rfl) q
  refine h.of_eq (.events h.arises q events) ?_ (hphase p) fun _ => rfl
  refine h.passive.of_le (fun _ hc => hc) ?_ (fun r _ hidle => (hphase r).trans hidle)
    (apply_party_modifyParty (π := Party.config)
      (f := fun party => { party with events := events }) (fun _ => rfl) q p)
    (apply_party_modifyParty (π := Party.released)
      (f := fun party => { party with events := events }) (fun _ => rfl) q p)
  rw [hphase]
  exact h.passive.spares

/-- What goes on between calls leaves the count of a party as it is. -/
theorem meanwhile (h : BetweenCalls p w t) (hmeanwhile : Meanwhile p w w') :
    BetweenCalls p w' t := by
  cases hmeanwhile with
  | network n =>
      refine h.of_eq (.network h.arises n) ?_ rfl fun _ => rfl
      exact h.passive.of_le (fun _ hc => hc) h.passive.spares (fun _ _ hidle => hidle) rfl rfl
  | addParty peer config hp =>
      have hphase : ∀ q, (w.addParty peer config).2.phase q = w.phase q :=
        apply_party_addParty (π := Party.phase) w peer fun _ => rfl
      refine h.of_eq (.addParty h.arises peer config) ?_ (hphase p) fun _ => rfl
      have hparty := party_addParty_of_ne hp
      refine h.passive.of_le (fun _ hc => hc) ?_ (fun q _ hidle => (hphase q).trans hidle)
        (congrArg Party.config hparty) (congrArg Party.released hparty)
      rw [hphase]
      exact h.passive.spares
  | addDocument text =>
      have hsurface : ∀ e, ((w.addDocument text).2.surfaces.get e).hook = (w.surfaces.get e).hook ∨
          ((w.addDocument text).2.surfaces.get e).hook = none := by
        intro e
        simp only [World.addDocument, Table.get_push]
        split
        · exact .inr rfl
        · exact .inl rfl
      refine h.of_eq (.addDocument h.arises text) ?_ rfl fun e => ?_
      · exact h.passive.of_le (fun _ hc => hc.of_le hsurface fun _ _ hnow => hnow) h.passive.spares
          (fun _ _ hidle => hidle) rfl rfl
      · simp only [World.document, World.addDocument, Table.get_push]
        split
        · next he =>
            subst he
            simp only [Table.get, List.getElem?_eq_none (Nat.le_refl _), Option.getD_none]
            rfl
        · rfl
  | listen d script havoids => exact h.listen havoids
  | unlisten d id hown => exact h.unlisten hown
  | arm d hook havoids => exact h.arm havoids
  | release q hq => exact h.release hq
  | releaseDocument d => exact h.releaseDocument
  | read q events => exact h.read q events

end BetweenCalls

/-! ## Runs -/

/-- What may have happened to a party, and its tally then.  It begins idle. -/
inductive TalliedRun (p : Nat) : World → Tally → Prop where
  | begin {w : World} (harises : w.Arises) (hpassive : w.Passive p) (hidle : w.phase p = .idle) :
      TalliedRun p w ⟨[], 0⟩
  | meanwhile {w w' : World} {t : Tally} (h : TalliedRun p w t) (hmeanwhile : Meanwhile p w w') :
      TalliedRun p w' t
  /-- A call that takes arrivals off a queue is many calls, one for each arrival. -/
  | call {w w' : World} {t : Tally} (h : TalliedRun p w t) {depth : Nat} {c : Call} {o : Outcome}
      (htaker : c.taker? = none) (hallows : w.Allows p c)
      (hrun : perform (World.write depth) c w = .ok (o, w')) : TalliedRun p w' (t.after p w c o)

theorem World.Allows.of_arrival {c : Call} (hparty : c.party? = some p)
    (hdocument : c.document? = none) : w.Allows p c where
  party q hq := Option.some.inj (hq.symm.trans hparty)
  spares d _ hd := by
    rw [hdocument] at hd
    cases hd

namespace TalliedRun

theorem betweenCalls (h : TalliedRun p w t) : BetweenCalls p w t := by
  induction h with
  | begin harises hpassive hidle => exact ⟨harises, hpassive, .idle hidle⟩
  | meanwhile _ hmeanwhile ih => exact ih.meanwhile hmeanwhile
  | call _ htaker hallows hrun ih => exact (ih.perform htaker hallows hrun).betweenCalls

/-- A run of Alice's party begins. -/
theorem idle (text : Text) {config : Config} (hconfig : config.strategy = .backlog) :
    TalliedRun 0 (Pair.idle text config).world ⟨[], 0⟩ := by
  have hwaits := not_waits_idle text config
  refine .begin (.idle text config) ⟨fun c hc => absurd hc (hwaits c),
    fun d _ c hc => absurd hc (hwaits c), fun q _ => ?_, hconfig, rfl⟩ rfl
  rcases q with _ | _ | q <;> rfl

end TalliedRun

/-! ## Arrivals -/

/-- How a party handles arrivals, and what becomes of its tally: it takes one after another off
its queue, and makes a call of each. -/
inductive Handles (p : Nat) (w : World) (t : Tally) : World → Tally → Prop where
  | refl : Handles p w t w t
  | receive {w' : World} {t' : Tally} (h : Handles p w t w' t') :
      Handles p w t (w'.receive p).2 t'
  | message {w' w'' : World} {t' : Tally} (h : Handles p w t w' t') {depth : Nat}
      {sender : PeerId} {payload : Bytes} {o : Outcome}
      (hrun : perform (World.write depth) (.handleMessage p sender payload) w' = .ok (o, w'')) :
      Handles p w t w'' (t'.after p w' (.handleMessage p sender payload) o)
  | disconnect {w' : World} {t' : Tally} (h : Handles p w t w' t') (peer : PeerId) :
      Handles p w t (w'.handleDisconnect p peer) t'

namespace Handles

theorem trans {w'' : World} {t'' : Tally} (h : Handles p w t w' t')
    (h' : Handles p w' t' w'' t'') : Handles p w t w'' t'' := by
  induction h' with
  | refl => exact h
  | receive _ ih => exact ih.receive
  | message _ hrun ih => exact ih.message hrun
  | disconnect _ peer ih => exact ih.disconnect peer

/-- The run goes on while arrivals are handled, and no edit is reported. -/
theorem talliedRun (h : Handles p w t w' t') (hprior : TalliedRun p w t) :
    TalliedRun p w' t' ∧ ReportsNothing p w w' := by
  induction h with
  | refl => exact ⟨hprior, .refl p w⟩
  | receive _ ih =>
      exact ⟨ih.1.meanwhile (.network _), ih.2.trans (.receive _ p)⟩
  | @message w₁ w₂ t₁ _ depth sender payload o hrun ih =>
      have hallows : w₁.Allows p (.handleMessage p sender payload) := .of_arrival rfl rfl
      have haccounts := ih.1.betweenCalls.perform rfl hallows hrun
      exact ⟨ih.1.call rfl hallows hrun, ih.2.trans (haccounts.reportsNothing rfl)⟩
  | @disconnect w₁ t₁ _ peer ih =>
      have hcall : perform (World.write 0) (.handleDisconnect p peer) w₁ =
          .ok (.done, w₁.handleDisconnect p peer) := rfl
      have hprior := ih.1.call rfl (.of_arrival rfl rfl) hcall
      rw [Tally.after_of_quiet rfl rfl rfl] at hprior
      have hleads := ih.1.betweenCalls.of_endRun (.handleDisconnect w₁ p peer)
      exact ⟨hprior, ih.2.trans hleads.reportsNothing⟩

end Handles

section Takers

variable {depth fuel : Nat}

theorem exists_handles_of_handleArrival {arrival : Arrival} {result : Except ShareError Unit}
    (hrun : w.handleArrival (World.write depth) p arrival = .ok (result, w')) (t : Tally) :
    ∃ t', Handles p w t w' t' := by
  cases arrival with
  | message sender payload =>
      have hcall : perform (World.write depth) (.handleMessage p sender payload) w =
          .ok (.shared result, w') :=
        bind_eq_ok_iff.2 ⟨(result, w'), hrun, rfl⟩
      exact ⟨_, Handles.refl.message hcall⟩
  | disconnected peer =>
      cases hrun
      exact ⟨t, Handles.refl.disconnect peer⟩

theorem exists_handles_of_handleNext
    {result : Except SyncError (Option (Except ShareError Unit))}
    (hrun : w.handleNext (World.write depth) p = .ok (result, w')) (t : Tally) :
    ∃ t', Handles p w t w' t' := by
  unfold World.handleNext at hrun
  have hreceive : Handles p w t (w.receive p).2 t := Handles.refl.receive
  generalize w.receive p = r at hreceive hrun
  obtain ⟨taken, w₁⟩ := r
  cases taken with
  | error reason =>
      cases hrun
      exact ⟨t, hreceive⟩
  | ok taken =>
      cases taken with
      | none =>
          cases hrun
          exact ⟨t, hreceive⟩
      | some arrival =>
          obtain ⟨⟨result, w₂⟩, harrival, hrun⟩ := bind_eq_ok_iff.1 hrun
          cases hrun
          obtain ⟨t', h'⟩ := exists_handles_of_handleArrival harrival t
          exact ⟨t', hreceive.trans h'⟩

theorem exists_handles_of_pumpFrom {handled : Nat} {result : Except ShareError Nat}
    (hrun : World.pumpFrom (World.write depth) p handled fuel w = .ok (result, w')) (t : Tally) :
    ∃ t', Handles p w t w' t' := by
  induction fuel generalizing w t handled with
  | zero => cases hrun
  | succ fuel ih =>
      obtain ⟨⟨next, w₁⟩, hnext, hrun⟩ := bind_eq_ok_iff.1 hrun
      obtain ⟨t₁, hfirst⟩ := exists_handles_of_handleNext hnext t
      cases next with
      | error reason =>
          cases hrun
          exact ⟨t₁, hfirst⟩
      | ok next =>
          cases next with
          | none =>
              cases hrun
              exact ⟨t₁, hfirst⟩
          | some result =>
              obtain ⟨t', hrest⟩ := ih hrun t₁
              exact ⟨t', hfirst.trans hrest⟩

theorem exists_handles_of_serveWithin {closed : Bool}
    (hrun : World.serveWithin (World.write depth) p fuel w = .ok (closed, w')) (t : Tally) :
    ∃ t', Handles p w t w' t' := by
  induction fuel generalizing w t with
  | zero => cases hrun
  | succ fuel ih =>
      obtain ⟨⟨next, w₁⟩, hnext, hrun⟩ := bind_eq_ok_iff.1 hrun
      obtain ⟨t₁, hfirst⟩ := exists_handles_of_handleNext hnext t
      cases next with
      | error reason =>
          dsimp only at hrun
          split at hrun
          · cases hrun
            exact ⟨t₁, hfirst.disconnect _⟩
          · cases hrun
            exact ⟨t₁, hfirst⟩
      | ok next =>
          cases next with
          | none =>
              cases hrun
              exact ⟨t₁, hfirst⟩
          | some result =>
              obtain ⟨t', hrest⟩ := ih hrun t₁
              exact ⟨t', hfirst.trans hrest⟩

/-- A call that takes arrivals off a queue does nothing but handle them. -/
theorem exists_handles_of_taker {c : Call} {o : Outcome} (htaker : c.taker? = some p)
    (hrun : perform (World.write depth) c w = .ok (o, w')) (t : Tally) :
    ∃ t', Handles p w t w' t' := by
  cases c with
  | pump q =>
      cases htaker
      obtain ⟨⟨result, w₁⟩, hpump, hrun⟩ := bind_eq_ok_iff.1 hrun
      cases hrun
      exact exists_handles_of_pumpFrom hpump t
  | handleNext q =>
      cases htaker
      obtain ⟨⟨result, w₁⟩, hnext, hrun⟩ := bind_eq_ok_iff.1 hrun
      cases hrun
      exact exists_handles_of_handleNext hnext t
  | serve q =>
      cases htaker
      obtain ⟨⟨closed, w₁⟩, hserve, hrun⟩ := bind_eq_ok_iff.1 hrun
      cases hrun
      exact exists_handles_of_serveWithin hserve t
  | edit | disconnect | start | accept | decline | stop | handleMessage | handleDisconnect =>
      cases htaker

end Takers

/-- Whatever a party has been through, each edit of the host that goes into the shared document
and changes something is reported to the peer, once and as it is, with its number in this session
and the number of the peer's edits taken in.  No other call reports an edit, whatever it handles,
and a session of the party's own making begins with the offer. -/
theorem reported_once (h : TalliedRun p w t) {c : Call} (hallows : w.Allows p c) {o : Outcome}
    (hrun : w.run c = .ok (o, w')) :
    (∃ t', TalliedRun p w' t' ∧ (c.taker? = none → t' = t.after p w c o) ∧
        (c.taker? = some p → Handles p w t w' t')) ∧
      (∀ e, w.hostEdit? p c o = some e → ∃ peer, (w.phase p).partner = some peer ∧
        Reported p peer ⟨e, t.edits.length + 1, t.heard⟩ w w') ∧
      (w.hostEdit? p c o = none → ReportsNothing p w w') ∧
      ∀ our name other fileName d, c = .start p our name other fileName d →
        o = .shared (.ok ()) → w.phase p = .idle ∧ (w'.phase p).partner = some other ∧
          Sent p other (.start ⟨our, name.getD our.short, other, (w.document d).text, fileName⟩)
            w w' := by
  have hstart : ∀ our name other fileName d, c = .start p our name other fileName d →
      o = .shared (.ok ()) → w.phase p = .idle ∧ (w'.phase p).partner = some other ∧
        Sent p other (.start ⟨our, name.getD our.short, other, (w.document d).text, fileName⟩)
          w w' := by
    rintro our name other fileName d rfl rfl
    have hresult : w.start p our name other fileName d = (.ok (), w') := by
      obtain ⟨hok, hw'⟩ := Prod.mk.inj (Except.ok.inj hrun)
      exact Prod.ext (Outcome.shared.inj hok) hw'
    obtain ⟨⟨reason, hfailed⟩, -⟩ | ⟨-, hidle, -, hpartner, hsent⟩ :=
      h.betweenCalls.start (hallows.spares d rfl rfl) hresult
    · cases hfailed
    · exact ⟨hidle, hpartner, hsent⟩
  cases htaker : c.taker? with
  | none =>
      have haccounts := h.betweenCalls.perform htaker hallows hrun
      exact ⟨⟨_, h.call htaker hallows hrun, fun _ => rfl, nofun⟩, haccounts.reported,
        haccounts.reportsNothing, hstart⟩
  | some q =>
      obtain ⟨hq, hnone⟩ : c.party? = some q ∧ w.hostEdit? p c o = none := by
        cases c with
        | pump | handleNext | serve => exact ⟨htaker, rfl⟩
        | edit | disconnect | start | accept | decline | stop | handleMessage
        | handleDisconnect => cases htaker
      obtain rfl := hallows.party q hq
      obtain ⟨t', hhandles⟩ := exists_handles_of_taker htaker hrun t
      obtain ⟨hprior, hnothing⟩ := hhandles.talliedRun h
      refine ⟨⟨t', hprior, nofun, fun _ => hhandles⟩, fun e he => ?_, fun _ => hnothing, hstart⟩
      rw [hnone] at he
      cases he

/-- Alice's second edit, made when one of Bob's has come in. -/
theorem reported_once_second_edit :
    let bob : PeerId := .ofByte 0xB0
    let first : Edit := ⟨0, 0, ['X']⟩
    let second : Edit := ⟨3, 1, []⟩
    ∃ w w' o, TalliedRun 0 w ⟨[first], 1⟩ ∧ w.run (.edit 0 second) = .ok (o, w') ∧
      Reported 0 bob ⟨second, 2, 1⟩ w w' := by
  intro bob first second
  let w₀ := (Pair.idle ['a', 'b'] .usual).world
  let offer : Call := .start 0 (.ofByte 0xA1) none bob [] 0
  let update : Call := .handleMessage 0 bob (Message.payload (.update ⟨⟨2, 0, ['Z']⟩, 1, 1⟩))
  have hrun : ∃ r₁ ∈ (w₀.run offer).toOption, ∃ r₂ ∈ (r₁.2.run (.edit 0 first)).toOption,
      ∃ r₃ ∈ (r₂.2.run update).toOption, ∃ r₄ ∈ (r₃.2.run (.edit 0 second)).toOption,
        (((⟨[], 0⟩ : Tally).after 0 w₀ offer r₁.1).after 0 r₁.2 (.edit 0 first) r₂.1).after 0 r₂.2
            update r₃.1 = ⟨[first], 1⟩ ∧
          r₃.2.hostEdit? 0 (.edit 0 second) r₄.1 = some second ∧
          (r₃.2.phase 0).partner = some bob := by
    decide +kernel
  obtain ⟨⟨o₁, w₁⟩, h₁, ⟨o₂, w₂⟩, h₂, ⟨o₃, w₃⟩, h₃, ⟨o₄, w₄⟩, h₄, htally, hedit, hpartner⟩ := hrun
  have hoffer : w₀.Allows 0 offer := ⟨fun q hq => (Option.some.inj hq).symm,
    fun d _ _ c hc => absurd hc (not_waits_idle ['a', 'b'] .usual c)⟩
  have hedits : ∀ {w : World} {e : Edit}, w.Allows 0 (.edit 0 e) := ⟨nofun, nofun⟩
  have hprior : TalliedRun 0 w₃ ⟨[first], 1⟩ := by
    rw [← htally]
    exact (((TalliedRun.idle ['a', 'b'] rfl).call rfl hoffer (eq_ok_of_mem_toOption h₁)).call rfl
      hedits
      (eq_ok_of_mem_toOption h₂)).call rfl (.of_arrival rfl rfl) (eq_ok_of_mem_toOption h₃)
  have hlast := eq_ok_of_mem_toOption h₄
  obtain ⟨peer, hpeer, hreported⟩ := (reported_once hprior hedits hlast).2.1 second hedit
  cases hpeer.symm.trans hpartner
  exact ⟨w₃, w₄, o₄, hprior, hlast, hreported⟩

/-- Bob's document edits itself before it takes in an edit of Alice's.  That edit is not
reported: no message leaves, and Bob is not told that one could not be sent. -/
theorem unreported_edit_of_document :
    let alice : PeerId := .ofByte 0xA1
    let payload := Message.payload (.update ⟨⟨0, 1, []⟩, 1, 0⟩)
    let hook : Hook := ⟨[.edit 1 ⟨2, 0, ['Y']⟩], none⟩
    ∃ v w w' : World, v.Arises ∧ w = v.arm 1 hook ∧
      w.handleMessage (World.write w.pendingReactions) 1 alice payload = .ok (.ok (), w') ∧
      (w.phase 1).document = some 1 ∧ (w'.phase 1).document = some 1 ∧
      (w.document 1).text = ['a', 'b'] ∧ (w'.document 1).text = ['b', 'Y'] ∧
      (∀ id, w'.network.endpoint id = w.network.endpoint id) ∧
      (w'.party 1).events = (w.party 1).events := by
  intro alice payload hook
  have hrun : ∃ v ∈ ((Pair.idle ['a', 'b'] .usual).world.runAll
        [.start 0 alice none (.ofByte 0xB0) [] 0, .handleNext 1, .accept 1 1]).toOption,
      let w := v.arm 1 hook
      ∃ r ∈ (w.handleMessage (World.write w.pendingReactions) 1 alice payload).toOption,
        r.1.toOption = some () ∧ (w.phase 1).document = some 1 ∧ (r.2.phase 1).document = some 1 ∧
          (w.document 1).text = ['a', 'b'] ∧ (r.2.document 1).text = ['b', 'Y'] ∧
          r.2.network.endpoints.slots = w.network.endpoints.slots ∧
          (r.2.party 1).events = (w.party 1).events := by
    decide +kernel
  obtain ⟨v, hv, ⟨result, w'⟩, hresult, hok, hlive, hlive', htext, htext', hslots, hevents⟩ := hrun
  have harises := (Arises.idle ['a', 'b'] .usual).runAll (eq_ok_of_mem_toOption hv)
  obtain rfl := eq_ok_of_mem_toOption hok
  refine ⟨v, _, w', harises, rfl, eq_ok_of_mem_toOption hresult, hlive, hlive', htext, htext',
    fun id => ?_, hevents⟩
  rw [Network.endpoint, Table.get, hslots, Network.endpoint, Table.get]

end PairEdit.Session
