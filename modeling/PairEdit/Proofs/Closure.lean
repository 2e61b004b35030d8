import PairEdit.Proofs.Runs

/-!
# Relations that calls keep

Documents are written by a `Writer` and calls are made by a `Caller`, and the two lead to each
other: a write makes the calls of a hook and of the listeners, and these may write again.  Here
are two induction principles for a relation between the world before and the world after.
`CallsClosed` goes from what arrives to the queues that are emptied and to every call of a host,
`ReactionsClosed` from one listener to all reactions, however deep they are nested.
-/

namespace PairEdit.Session

open World

/-! ## From arrivals to calls -/

/-- A relation that holds when a document is written, when the network does something, and when
one of the parties that act does one thing.  Where the world before has to be as in `pre`, the
world after is so too. -/
structure CallsClosed (write : Writer) (pre : World → Prop) (acts : Nat → Prop)
    (post : World → World → Prop) : Prop where
  trans : ∀ {w w' w''}, post w w' → post w' w'' → post w w''
  pre_of_post : ∀ {w w'}, post w w' → pre w → pre w'
  edit : ∀ {w d e result w'}, pre w → write d e w = .ok (result, w') → post w w'
  disconnect : ∀ w peer, post w { w with network := w.network.disconnect peer }
  receive : ∀ w p, post w (w.receive p).2
  start : ∀ {w p}, acts p → ∀ our name other fileName d,
    post w (w.start p our name other fileName d).2
  accept : ∀ {w p d result w'}, pre w → acts p → w.accept write p d = .ok (result, w') → post w w'
  decline : ∀ {w p}, acts p → post w (w.decline p).2
  stop : ∀ {w p}, acts p → post w (w.stop p).2
  handleMessage : ∀ {w p sender payload result w'}, pre w → acts p →
    w.handleMessage write p sender payload = .ok (result, w') → post w w'
  handleDisconnect : ∀ {w p}, acts p → ∀ peer, post w (w.handleDisconnect p peer)

namespace CallsClosed

variable {write : Writer} {pre : World → Prop} {acts : Nat → Prop} {post : World → World → Prop}
variable {w w' : World} {p : Nat}

theorem handleArrival (h : CallsClosed write pre acts post) (hpre : pre w) (hp : acts p)
    {arrival : Arrival} {result : Except ShareError Unit}
    (hrun : w.handleArrival write p arrival = .ok (result, w')) : post w w' := by
  cases arrival with
  | message sender payload => exact h.handleMessage hpre hp hrun
  | disconnected peer =>
      cases hrun
      exact h.handleDisconnect hp peer

theorem handleNext (h : CallsClosed write pre acts post) (hpre : pre w) (hp : acts p)
    {result : Except SyncError (Option (Except ShareError Unit))}
    (hrun : w.handleNext write p = .ok (result, w')) : post w w' := by
  unfold World.handleNext at hrun
  have hreceive := h.receive w p
  generalize w.receive p = r at hreceive hrun
  obtain ⟨taken, w₁⟩ := r
  cases taken with
  | error reason =>
      cases hrun
      exact hreceive
  | ok taken =>
      cases taken with
      | none =>
          cases hrun
          exact hreceive
      | some arrival =>
          obtain ⟨⟨result, w₂⟩, harrival, hrun⟩ := bind_eq_ok_iff.1 hrun
          cases hrun
          exact h.trans hreceive (h.handleArrival (h.pre_of_post hreceive hpre) hp harrival)

theorem pumpFrom (h : CallsClosed write pre acts post) (hpre : pre w) (hp : acts p)
    {handled fuel : Nat} {result : Except ShareError Nat}
    (hrun : World.pumpFrom write p handled fuel w = .ok (result, w')) : post w w' := by
  induction fuel generalizing w handled with
  | zero => cases hrun
  | succ fuel ih =>
      obtain ⟨⟨next, w₁⟩, hnext, hrun⟩ := bind_eq_ok_iff.1 hrun
      have hfirst := h.handleNext hpre hp hnext
      cases next with
      | error reason =>
          cases hrun
          exact hfirst
      | ok next =>
          cases next with
          | none =>
              cases hrun
              exact hfirst
          | some result => exact h.trans hfirst (ih (h.pre_of_post hfirst hpre) hrun)

theorem serveWithin (h : CallsClosed write pre acts post) (hpre : pre w) (hp : acts p)
    {fuel : Nat} {closed : Bool}
    (hrun : World.serveWithin write p fuel w = .ok (closed, w')) : post w w' := by
  induction fuel generalizing w with
  | zero => cases hrun
  | succ fuel ih =>
      obtain ⟨⟨next, w₁⟩, hnext, hrun⟩ := bind_eq_ok_iff.1 hrun
      have hfirst := h.handleNext hpre hp hnext
      cases next with
      | error reason =>
          dsimp only at hrun
          split at hrun
          · cases hrun
            exact h.trans hfirst (h.handleDisconnect hp _)
          · cases hrun
            exact hfirst
      | ok next =>
          cases next with
          | none =>
              cases hrun
              exact hfirst
          | some result => exact h.trans hfirst (ih (h.pre_of_post hfirst hpre) hrun)

/-- Every call is so related, if the party that it is made to acts. -/
theorem perform (h : CallsClosed write pre acts post) (hpre : pre w) {c : Call}
    (hparty : ∀ q, c.party? = some q → acts q) {outcome : Outcome}
    (hrun : World.perform write c w = .ok (outcome, w')) : post w w' := by
  cases c with
  | edit d e =>
      obtain ⟨⟨result, w₁⟩, hwritten, hrun⟩ := bind_eq_ok_iff.1 hrun
      cases hrun
      exact h.edit hpre hwritten
  | disconnect peer =>
      cases hrun
      exact h.disconnect w peer
  | start p our name other fileName d =>
      cases hrun
      exact h.start (hparty p rfl) our name other fileName d
  | accept p d =>
      obtain ⟨⟨result, w₁⟩, haccept, hrun⟩ := bind_eq_ok_iff.1 hrun
      cases hrun
      exact h.accept hpre (hparty p rfl) haccept
  | decline p =>
      cases hrun
      exact h.decline (hparty p rfl)
  | stop p =>
      cases hrun
      exact h.stop (hparty p rfl)
  | pump p =>
      obtain ⟨⟨result, w₁⟩, hpump, hrun⟩ := bind_eq_ok_iff.1 hrun
      cases hrun
      exact h.pumpFrom hpre (hparty p rfl) hpump
  | handleNext p =>
      obtain ⟨⟨result, w₁⟩, hnext, hrun⟩ := bind_eq_ok_iff.1 hrun
      cases hrun
      exact h.handleNext hpre (hparty p rfl) hnext
  | handleMessage p sender payload =>
      obtain ⟨⟨result, w₁⟩, hmessage, hrun⟩ := bind_eq_ok_iff.1 hrun
      cases hrun
      exact h.handleMessage hpre (hparty p rfl) hmessage
  | handleDisconnect p peer =>
      cases hrun
      exact h.handleDisconnect (hparty p rfl) peer
  | serve p =>
      obtain ⟨⟨closed, w₁⟩, hserve, hrun⟩ := bind_eq_ok_iff.1 hrun
      cases hrun
      exact h.serveWithin hpre (hparty p rfl) hserve

end CallsClosed

/-! ## From listeners to nested reactions -/

/-- What is said of reactions: the worlds in which they happen, the calls that are made in them,
the documents that are written, the listeners that are called, and how the world after is related
to the world before. -/
structure Contract where
  pre : World → Prop
  calls : World → Call → Prop
  writes : World → Nat → Prop
  hears : World → Subscriber → Prop
  post : World → World → Prop

namespace Contract

/-- Nothing is asked of the world before. -/
def unconditional (post : World → World → Prop) : Contract :=
  ⟨fun _ => True, fun _ _ => True, fun _ _ => True, fun _ _ => True, post⟩

/-- A writer keeps a contract. -/
def Writes (C : Contract) (write : Writer) : Prop :=
  ∀ ⦃w d e result w'⦄, C.pre w → C.writes w d → write d e w = .ok (result, w') → C.post w w'

/-- A caller keeps a contract. -/
def Calls (C : Contract) (caller : Caller) : Prop :=
  ∀ ⦃c w outcome w'⦄, C.pre w → C.calls w c → caller c w = .ok (outcome, w') → C.post w w'

end Contract

/-- A contract that is kept when one thing is done in reaction to an edit, other than a call.
What waits in hooks and scripts is a call of the contract, and a document that is written is
listened to by listeners of the contract. -/
structure ReactionsClosed (C : Contract) : Prop where
  refl : ∀ w, C.post w w
  trans : ∀ {w w' w''}, C.post w w' → C.post w' w'' → C.post w w''
  pre_of_post : ∀ {w w'}, C.post w w' → C.pre w → C.pre w'
  calls_of_post : ∀ {w w' c}, C.post w w' → C.calls w c → C.calls w' c
  writes_of_post : ∀ {w w' d}, C.post w w' → C.writes w d → C.writes w' d
  hears_of_post : ∀ {w w' s}, C.post w w' → C.hears w s → C.hears w' s
  calls_of_waits : ∀ {w c}, C.pre w → w.Waits c → C.calls w c
  hears_of_mem : ∀ {w d l}, C.pre w → C.writes w d → l ∈ (w.document d).listeners → C.hears w l.2
  note : ∀ w underway log, C.post w { w with underway := underway, log := log }
  script : ∀ {w i now later}, w.scripts.get i = now :: later →
    C.post w { w with scripts := w.scripts.set i later }
  unhook : ∀ w d, C.post w (w.setHook d none)
  collect : ∀ {w}, C.pre w → C.post w w.collect
  text : ∀ w d text, C.post w (w.setDocument d { w.document d with text := text })
  capture : ∀ {w p epoch e w'}, C.hears w (.capture p epoch) → w.capture p epoch e = .ok w' →
    C.post w w'

namespace ReactionsClosed

variable {C : Contract} {caller : Caller} {w w' : World} {d : Nat} {e : Edit}

theorem reactAll (h : ReactionsClosed C) (hcaller : C.Calls caller) {calls : List Call}
    (hpre : C.pre w) (hcalls : ∀ c ∈ calls, C.calls w c)
    (hrun : World.reactAll caller calls w = .ok w') : C.post w w' := by
  induction calls generalizing w with
  | nil =>
      cases hrun
      exact h.refl _
  | cons c rest ih =>
      obtain ⟨⟨outcome, w₁⟩, hcall, hrun⟩ := bind_eq_ok_iff.1 hrun
      have hone := h.trans (hcaller hpre (hcalls c List.mem_cons_self) hcall)
        (h.note w₁ w₁.underway (w₁.log ++ [outcome]))
      exact h.trans hone (ih (h.pre_of_post hone hpre)
        (fun c hc => h.calls_of_post hone (hcalls c (List.mem_cons_of_mem _ hc))) hrun)

theorem makeAll (h : ReactionsClosed C) (hcaller : C.Calls caller) {calls : List Call}
    (hpre : C.pre w) (hcalls : ∀ c ∈ calls, C.calls w c)
    (hrun : World.makeAll caller calls w = .ok w') : C.post w w' := by
  induction calls generalizing w with
  | nil =>
      cases hrun
      exact h.refl _
  | cons c rest ih =>
      obtain ⟨⟨outcome, w₁⟩, hcall, hrun⟩ := bind_eq_ok_iff.1 hrun
      have hmade := h.trans (hcaller hpre (hcalls c List.mem_cons_self) hcall)
        (h.note w₁ w₁.underway.tail (w₁.log ++ [outcome]))
      have hone := h.trans hmade (h.collect (h.pre_of_post hmade hpre))
      exact h.trans hone (ih (h.pre_of_post hone hpre)
        (fun c hc => h.calls_of_post hone (hcalls c (List.mem_cons_of_mem _ hc))) hrun)

theorem notifyOne (h : ReactionsClosed C) (hcaller : C.Calls caller) {subscriber : Subscriber}
    (hpre : C.pre w) (hhears : C.hears w subscriber)
    (hrun : World.notifyOne caller e subscriber w = .ok w') : C.post w w' := by
  cases subscriber with
  | capture p epoch => exact h.capture hhears hrun
  | host i =>
      simp only [World.notifyOne] at hrun
      split at hrun
      · cases hrun
        exact h.refl _
      · next now later hscript =>
          have hused := h.script hscript
          refine h.trans hused (h.reactAll hcaller (h.pre_of_post hused hpre) (fun c hc => ?_) hrun)
          exact h.calls_of_post hused
            (h.calls_of_waits hpre (.inr ⟨i, now, hscript ▸ List.mem_cons_self, hc⟩))

theorem notify (h : ReactionsClosed C) (hcaller : C.Calls caller)
    {listeners : List (Nat × Subscriber)} (hpre : C.pre w)
    (hhears : ∀ l ∈ listeners, C.hears w l.2)
    (hrun : Document.notify (World.notifyOne caller) e listeners w = .ok w') : C.post w w' := by
  induction listeners generalizing w with
  | nil =>
      cases hrun
      exact h.refl _
  | cons l rest ih =>
      obtain ⟨w₁, hone, hrun⟩ := bind_eq_ok_iff.1 hrun
      have hfirst := h.notifyOne hcaller hpre (hhears l List.mem_cons_self) hone
      exact h.trans hfirst (ih (h.pre_of_post hfirst hpre)
        (fun l hl => h.hears_of_post hfirst (hhears l (List.mem_cons_of_mem _ hl))) hrun)

/-- A document gets its new text, and those that listened to it then are called. -/
theorem setText_notify (h : ReactionsClosed C) (hcaller : C.Calls caller) (hpre : C.pre w)
    (hwrites : C.writes w d) {text : Text}
    (hrun : Document.notify (World.notifyOne caller) e (w.document d).listeners
      (w.setDocument d { w.document d with text := text }) = .ok w') : C.post w w' := by
  have hset := h.text w d text
  exact h.trans hset (h.notify hcaller (h.pre_of_post hset hpre)
    (fun _ hl => h.hears_of_post hset (h.hears_of_mem hpre hwrites hl)) hrun)

theorem hookRun (h : ReactionsClosed C) (hcaller : C.Calls caller) (hpre : C.pre w)
    (hrun : HookRun caller d w w') : C.post w w' := by
  cases hrun with
  | none => exact h.refl w
  | some hook hhook hcalls =>
      have hfire : C.post w (w.fire d hook) :=
        h.trans (h.unhook w d) (h.note _ (hook.calls ++ w.underway) w.log)
      exact h.trans hfire (h.makeAll hcaller (h.pre_of_post hfire hpre)
        (fun c hc => h.calls_of_post hfire
          (h.calls_of_waits hpre (.inl ⟨d, hook, hhook, hc⟩))) hcalls)

theorem writeVia (h : ReactionsClosed C) (hcaller : C.Calls caller) :
    C.Writes (World.writeVia caller) := by
  intro w d e result w' hpre hwrites hrun
  obtain ⟨v, hhook, ⟨-, rfl⟩ | ⟨-, text, hnotify⟩⟩ := exists_hookRun_of_writeVia hrun
  · exact h.hookRun hcaller hpre hhook
  · have hmade := h.hookRun hcaller hpre hhook
    exact h.trans hmade (h.setText_notify hcaller (h.pre_of_post hmade hpre)
      (h.writes_of_post hmade hwrites) hnotify)

/-- When calls keep the contract as soon as writes do, they keep it however deep reactions are
nested. -/
theorem nestedCaller (h : ReactionsClosed C)
    (hperform : ∀ write, C.Writes write → C.Calls (World.perform write)) (depth : Nat) :
    C.Calls (World.nestedCaller depth) := by
  induction depth with
  | zero =>
      intro c w outcome w' _ _ hrun
      cases hrun
  | succ depth ih =>
      refine hperform _ ?_
      rw [write_eq]
      exact h.writeVia ih

theorem write (h : ReactionsClosed C)
    (hperform : ∀ write, C.Writes write → C.Calls (World.perform write)) (depth : Nat) :
    C.Writes (World.write depth) := by
  rw [write_eq]
  exact h.writeVia (h.nestedCaller hperform depth)

end ReactionsClosed

/-! ### Without conditions -/

/-- Whatever a write leads to is so related. -/
def WriterKeeps (post : World → World → Prop) (write : Writer) : Prop :=
  ∀ ⦃w d e result w'⦄, write d e w = .ok (result, w') → post w w'

/-- Whatever a call leads to is so related. -/
def CallerKeeps (post : World → World → Prop) (caller : Caller) : Prop :=
  ∀ ⦃c w outcome w'⦄, caller c w = .ok (outcome, w') → post w w'

/-- A relation that holds when one thing is done in reaction to an edit, other than a call,
whatever the world before is like. -/
structure ReactionsKeep (post : World → World → Prop) : Prop where
  refl : ∀ w, post w w
  trans : ∀ {w w' w''}, post w w' → post w' w'' → post w w''
  note : ∀ w scripts underway log,
    post w { w with scripts := scripts, underway := underway, log := log }
  unhook : ∀ w d, post w (w.setHook d none)
  collect : ∀ w, post w w.collect
  text : ∀ w d text, post w (w.setDocument d { w.document d with text := text })
  capture : ∀ {w p epoch e w'}, w.capture p epoch e = .ok w' → post w w'

section Unconditional

variable {post : World → World → Prop} {caller : Caller}

theorem CallerKeeps.calls (h : CallerKeeps post caller) :
    (Contract.unconditional post).Calls caller :=
  fun _ _ _ _ _ _ hrun => h hrun

namespace ReactionsKeep

theorem closed (h : ReactionsKeep post) : ReactionsClosed (.unconditional post) where
  refl := h.refl
  trans := h.trans
  pre_of_post _ hpre := hpre
  calls_of_post _ hcalls := hcalls
  writes_of_post _ hwrites := hwrites
  hears_of_post _ hhears := hhears
  calls_of_waits _ _ := trivial
  hears_of_mem _ _ _ := trivial
  note w underway log := h.note w w.scripts underway log
  script {w _ _ _} _ := h.note w _ w.underway w.log
  unhook := h.unhook
  collect {w} _ := h.collect w
  text := h.text
  capture _ hcapture := h.capture hcapture

theorem nestedCaller (h : ReactionsKeep post)
    (hperform : ∀ write, WriterKeeps post write → CallerKeeps post (World.perform write))
    (depth : Nat) : CallerKeeps post (World.nestedCaller depth) := by
  have hnested := h.closed.nestedCaller
    (fun write hwrite => (hperform write fun _ _ _ _ _ hrun => hwrite trivial trivial hrun).calls)
    depth
  exact fun _ _ _ _ hrun => hnested trivial trivial hrun

/-- When calls are so related as soon as writes are, writes are, however deep reactions are
nested. -/
theorem write (h : ReactionsKeep post)
    (hperform : ∀ write, WriterKeeps post write → CallerKeeps post (World.perform write))
    (depth : Nat) : WriterKeeps post (World.write depth) := by
  rw [write_eq]
  exact fun _ _ _ _ _ hrun =>
    h.closed.writeVia (h.nestedCaller hperform depth).calls trivial trivial hrun

end ReactionsKeep

end Unconditional

end PairEdit.Session
