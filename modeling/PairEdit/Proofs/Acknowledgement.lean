import Mathlib.Data.List.TakeWhile
import PairEdit.Proofs.Accounts
import PairEdit.Proofs.Isolation

/-!
# What an update acknowledges

An update says how many edits of its receiver its author has applied, and the receiver takes
it that these are the oldest of its own edits that it has registered.  They are the oldest of
those that it has sent.  So the edits that are retired are the ones that the author has
applied, exactly if all of them were sent; an edit that is registered and then cannot be sent
puts the acknowledgements after it out by one.
-/

namespace PairEdit

open Session

/-- Which strategy this is a state of. -/
def Strategy.kind : Strategy → Strategy.Kind
  | .backlog _ => .backlog
  | .plain => .plain

namespace Strategy

variable {s s' : Strategy} {e : Edit} {u : Update} {n : Nat}

theorem kind_start (kind : Kind) (role : Role) : (start kind role).kind = kind := by
  cases kind <;> rfl

theorem kind_of_register? (h : s.register? e = some (u, s')) : s'.kind = s.kind := by
  cases s with
  | plain =>
      cases h
      rfl
  | backlog b =>
      obtain ⟨b', -, rfl⟩ := register?_backlog_eq_some_iff.1 h
      rfl

theorem kind_of_receive? (h : s.receive? u = some (e, s')) : s'.kind = s.kind := by
  cases s with
  | plain =>
      cases h
      rfl
  | backlog b =>
      obtain ⟨b', -, rfl⟩ := receive?_backlog_eq_some_iff.1 h
      rfl

theorem kind_of_skip? (h : s.skip? n = some s') : s'.kind = s.kind := by
  cases s with
  | plain =>
      cases h
      rfl
  | backlog b =>
      obtain ⟨b', -, rfl⟩ := skip?_backlog_eq_some_iff.1 h
      rfl

theorem exists_backlog (h : s.kind = .backlog) : ∃ b, s = .backlog b := by
  cases s with
  | backlog b => exact ⟨b, rfl⟩
  | plain => cases h

end Strategy

namespace Session

open Function

/-! ## Accounts of a world -/

/-- The update in a letter, with what was noted down about it. -/
def Letter.update? (l : Letter) : Option (Update × Postmark) :=
  match l.message with
  | .update u => some (u, l.mark)
  | _ => none

/-- The updates among some letters. -/
def updatesIn (letters : List Letter) : List (Update × Postmark) :=
  letters.filterMap Letter.update?

/-- The backlog that a party has, or the one that it would have if it accepted. -/
def Phase.backlog : Phase → Backlog
  | .idle => .joined 0
  | .offered o => .joined o.buffered
  | .live l =>
      match l.strategy with
      | .backlog b => b
      | .plain => .joined 0

/-- The account of a party, from its phase, the notes on it and its mail.  An idle party
passes over all that comes before an offer. -/
def Account.of (phase : Phase) (session : Option SessionId) (applied posted : List Nat)
    (mail : List Letter) : Account where
  isOpen := session.isSome || mail.any fun l => l.IsStart
  backlog := phase.backlog
  applied := applied
  posted := posted
  heard := updatesIn (if session.isSome then mail else mail.dropWhile fun l => !decide l.IsStart)

section Letters

variable {l : Letter} {letters mail : List Letter} {phase : Phase} {session : Option SessionId}
variable {applied posted : List Nat}

theorem updatesIn_append (mail letters : List Letter) :
    updatesIn (mail ++ letters) = updatesIn mail ++ updatesIn letters :=
  List.filterMap_append

theorem updatesIn_eq_nil (h : ∀ l ∈ letters, ¬ l.IsUpdate) : updatesIn letters = [] := by
  refine List.filterMap_eq_nil_iff.2 fun l hl => ?_
  unfold Letter.update?
  split
  · next u hu => exact absurd ⟨u, hu⟩ (h l hl)
  · rfl

theorem dropWhile_eq_nil (h : ∀ l ∈ mail, ¬ l.IsStart) :
    mail.dropWhile (fun l => !decide l.IsStart) = [] :=
  List.dropWhile_eq_nil_iff.2 fun l hl => by simp [h l hl]

theorem any_eq_false (h : ∀ l ∈ mail, ¬ l.IsStart) :
    (mail.any fun l => l.IsStart) = false := by
  simpa using h

/-- What arrives and is no offer is heard by a party that is in the session, or is to be. -/
theorem Account.of_append (h : ∀ l ∈ letters, ¬ l.IsStart) :
    Account.of phase session applied posted (mail ++ letters) =
      (Account.of phase session applied posted mail).hears (updatesIn letters) := by
  have hany := any_eq_false h
  cases session with
  | some s => simp [Account.of, hears, updatesIn_append]
  | none =>
      simp only [Account.of, hears, List.any_append, hany, Option.isSome_none, Bool.false_or,
        Bool.or_false, Bool.false_eq_true, if_false, List.dropWhile_append, dropWhile_eq_nil h,
        Account.mk.injEq, true_and]
      by_cases hmail : (mail.any fun l => l.IsStart) = true
      · have hne : (mail.dropWhile fun l => !decide l.IsStart) ≠ [] := fun hnil => by
          rw [List.dropWhile_eq_nil_iff] at hnil
          obtain ⟨l, hl, hstart⟩ := List.any_eq_true.1 hmail
          simpa [of_decide_eq_true hstart] using hnil l hl
        rw [if_neg (by simpa using hne), if_pos hmail, updatesIn_append]
      · have hnil : (mail.dropWhile fun l => !decide l.IsStart) = [] :=
          dropWhile_eq_nil (by simpa using hmail)
        rw [hnil, if_neg hmail]
        rfl

/-- An idle party passes over what is no offer. -/
theorem Account.of_cons_of_not_isStart (h : ¬ l.IsStart) :
    Account.of phase none applied posted (l :: mail) =
      Account.of phase none applied posted mail := by
  simp [Account.of, h]

/-- An offer that is taken opens no account that was not open before. -/
theorem Account.of_cons_of_isStart (phase' : Phase) (s : SessionId) (h : l.IsStart)
    (hbacklog : phase'.backlog = .joined 0) :
    Account.of .idle none applied posted (l :: mail) =
      Account.of phase' (some s) applied posted mail := by
  have hnone : l.update? = none := by
    obtain ⟨offer, hoffer⟩ := h
    rw [Letter.update?, hoffer]
  simp [Account.of, h, hbacklog, updatesIn, hnone, show Phase.idle.backlog = .joined 0 from rfl]

/-- What is no offer and no update changes no account. -/
theorem Account.of_append_of_stops (h : ∀ l ∈ letters, l.IsStop) :
    Account.of phase session applied posted (mail ++ letters) =
      Account.of phase session applied posted mail := by
  rw [of_append fun l hl => (h l hl).not_isStart,
    updatesIn_eq_nil fun l hl => (h l hl).not_isUpdate, hears_nil]

end Letters

/-! ## Strategies that stay of one kind -/

/-- A session is reconciled with the strategy that the party was set up with. -/
def Phase.OfKind (kind : Strategy.Kind) (phase : Phase) : Prop :=
  ∀ l, phase = .live l → l.strategy.kind = kind

section Turns

variable {ids : Fin 2 → PeerId} {p : Fin 2} {limits : Limits} {config : Config}
variable {phase phase' : Phase} {taken : Option Message} {handled : Option Letter}
variable {epochs epochs' : Nat} {out : List Message}

theorem Speaks.ofKind {kind : Strategy.Kind} (h : Speaks limits phase out phase')
    (hkind : phase.OfKind kind) : phase'.OfKind kind := by
  induction h with
  | silent => exact hkind
  | capture hregister _ ih =>
      refine ih ?_
      rintro _ ⟨⟩
      exact (Strategy.kind_of_register? hregister).trans (hkind _ rfl)

theorem Turn.ofKind (h : Turn ids config p taken phase epochs out phase' epochs')
    (hkind : phase.OfKind config.strategy) : phase'.OfKind config.strategy := by
  have hcapture : ∀ {l : Live} (capture : Option Nat), (Phase.live l).OfKind config.strategy →
      (Phase.live { l with capture := capture }).OfKind config.strategy := by
    rintro l capture hl _ ⟨⟩
    exact hl l rfl
  cases h with
  | speaks hspeaks => exact hspeaks.ofKind hkind
  | fails | quits | ignores | isOffered | absorbs | breaks | leaves => exact nofun
  | starts =>
      rintro _ ⟨⟩
      exact Strategy.kind_start ..
  | enters hskip hspeaks =>
      refine hcapture _ (hspeaks.ofKind ?_)
      rintro _ ⟨⟩
      exact (Strategy.kind_of_skip? hskip).trans (Strategy.kind_start ..)
  | misses | refuses => exact hkind
  | applies _ hreceive hspeaks =>
      refine hcapture _ (hspeaks.ofKind ?_)
      rintro _ ⟨⟩
      exact (Strategy.kind_of_receive? hreceive).trans (hkind _ rfl)

/-! ## Turns in the accounts -/

/-- What a message becomes to a peer that reads it. -/
theorem updatesIn_posted_leaving {others : Limits} (hothers : others.messageBytes ≤ Word.max)
    {u : Update} (hwords : ∀ m ∈ (Message.update u).leaving limits, m.InWords)
    (mark : Option Postmark) :
    updatesIn (posted others mark ((Message.update u).leaving limits)) = [] ∨
      ∃ m ∈ mark,
        updatesIn (posted others mark ((Message.update u).leaving limits)) = [(u, m)] := by
  unfold Message.leaving at hwords ⊢
  split at hwords
  · cases mark with
    | none => exact .inl rfl
    | some m =>
        rw [posted, List.filterMap_cons, List.filterMap_nil, Option.bind_some]
        cases hletter : readLetter? others (Message.update u).payload m with
        | none => exact .inl rfl
        | some l =>
            obtain rfl := eq_of_readLetter? hothers (hwords _ List.mem_cons_self) hletter
            exact .inr ⟨m, rfl, rfl⟩
  · exact .inl rfl

theorem posted_append (limits : Limits) (mark : Option Postmark) (out out' : List Message) :
    posted limits mark (out ++ out') = posted limits mark out ++ posted limits mark out' :=
  List.filterMap_append

/-- Speaking is registering edits. -/
theorem Speaks.registers {others : Limits} (hothers : others.messageBytes ≤ Word.max)
    (h : Speaks limits phase out phase') (hkind : phase.OfKind .backlog)
    (hwords : ∀ m ∈ out, m.InWords) {mark : Option Postmark} {applied : List Nat}
    (hmark : ∀ m ∈ mark, m.applied = applied) :
    Account.Registers phase.backlog applied (updatesIn (posted others mark out))
      phase'.backlog := by
  induction h with
  | silent => exact .refl ..
  | @capture l e u s out phase hregister _ ih =>
      obtain ⟨b, hb⟩ := Strategy.exists_backlog (hkind l rfl)
      have hregister' := hregister
      rw [hb] at hregister'
      obtain ⟨b', hb', rfl⟩ := Strategy.register?_backlog_eq_some_iff.1 hregister'
      have hrest := ih (by rintro _ ⟨⟩; rfl) fun m hm => hwords m (List.mem_append_right _ hm)
      rw [posted_append, updatesIn_append]
      refine Account.Registers.trans ?_ hrest
      rw [show (Phase.live l).backlog = b by rw [Phase.backlog, hb]]
      rcases updatesIn_posted_leaving hothers (fun m hm => hwords m (List.mem_append_left _ hm))
        mark with hnone | ⟨m, hm, hsome⟩
      · exact .of_register? hb' (.inl hnone)
      · exact .of_register? hb' (.inr ⟨m, hmark m hm, hsome⟩)

theorem Offered.buffered_of_absorb? {o o' : Offered} {e : Edit}
    (h : o.absorb? limits e = some (.ok (), o')) :
    o.buffered + 1 ≤ Word.max ∧ o'.buffered = o.buffered + 1 := by
  obtain ⟨reason, ⟨⟩, -⟩ | ⟨text, -, hcount, rfl, -⟩ := absorb?_cases h
  exact ⟨hcount, rfl⟩

/-- A letter says what was sent. -/
theorem message_mem_of_mem_posted {others : Limits} (hothers : others.messageBytes ≤ Word.max)
    (hwords : ∀ m ∈ out, m.InWords) {mark : Option Postmark} {l : Letter}
    (hl : l ∈ posted others mark out) : l.message ∈ out := by
  obtain ⟨m, hm, hread⟩ := List.mem_filterMap.1 hl
  obtain ⟨mark, -, hread⟩ := Option.bind_eq_some_iff.1 hread
  rwa [eq_of_readLetter? hothers (hwords m hm) hread]

/-- The numbers of the own edits that a party has sent in its session, once it has said some
more there. -/
def dispatched (edits : List Nat) (now : Option SessionId) (said : List (Update × Postmark)) :
    List Nat :=
  match now with
  | none => []
  | some _ => edits ++ said.map fun x => x.1.sent

variable {had hadPeer : Option SessionId} {applied appliedPeer edits editsPeer : List Nat}
variable {kept mailPeer letters : List Letter} {phasePeer : Phase} {peer : Account}

/-- A party in no session has applied and sent nothing there. -/
theorem Account.eq_nil_of_idle (h : (Account.of .idle had applied edits kept).Balanced) :
    applied = [] ∧ edits = [] := by
  have hreceived := h.received_eq
  refine ⟨List.eq_nil_of_length_eq_zero hreceived.symm, ?_⟩
  refine List.eq_nil_iff_forall_not_mem.2 fun x hx => ?_
  have hle := h.posted_le x hx
  simp only [of, Phase.backlog, Backlog.joined] at hle
  omega

theorem Account.blank_of_idle (hkept : ∀ l ∈ kept, ¬ l.IsStart) :
    (Account.of .idle none [] [] kept).Blank ∧
      (Account.of .idle none [] [] kept).isOpen = false := by
  refine ⟨⟨rfl, rfl, rfl, rfl, rfl, rfl, ?_⟩, ?_⟩
  · simp only [of, Option.isSome_none, Bool.false_eq_true, if_false, dropWhile_eq_nil hkept]
    rfl
  · simp only [of, Option.isSome_none, Bool.false_or, any_eq_false hkept]

/-- A party says what it has to in its session. -/
theorem Account.Settled.speaks {others : Limits} (hothers : others.messageBytes ≤ Word.max)
    {s : SessionId} (h : Settled (Account.of phase (some s) applied edits kept)
      (Account.of phasePeer hadPeer appliedPeer editsPeer mailPeer))
    (hspeaks : Speaks limits phase out phase') (hkind : phase.OfKind .backlog)
    (hout : ∀ m ∈ out, m.InWords ∧ ∃ u, m = .update u) {mark : Option Postmark}
    (hmark : ∀ m ∈ mark, m.applied = applied) :
    Settled (Account.of phase' (some s) applied
        (dispatched edits (some s) (updatesIn (Session.posted others mark out))) kept)
      (Account.of phasePeer hadPeer appliedPeer editsPeer
        (mailPeer ++ Session.posted others mark out)) := by
  have hwords : ∀ m ∈ out, m.InWords := fun m hm => (hout m hm).1
  rw [Account.of_append fun l hl => ?_]
  · exact say (a := Account.of phase (some s) applied edits kept) rfl rfl rfl
      (hspeaks.registers hothers hkind hwords hmark) h rfl
  · obtain ⟨u, hu⟩ := (hout _ (message_mem_of_mem_posted hothers hwords hl)).2
    exact (show l.IsUpdate from ⟨u, hu⟩).not_isStart

/-- A party that does nothing, or passes over what it has no use for. -/
theorem Account.Settled.rests {p : Fin 2}
    (h : (Account.of phase had applied edits kept).Settled peer)
    (hidle : had = none ↔ phase = .idle) :
    (Account.of phase (follow p had phase phase none)
      (absorbed applied (follow p had phase phase none) none)
      (dispatched edits (follow p had phase phase none) []) kept).Settled peer := by
  by_cases hphase : phase = .idle
  · subst hphase
    obtain rfl := hidle.2 rfl
    obtain ⟨rfl, rfl⟩ := Account.eq_nil_of_idle h.left
    exact h
  · obtain ⟨s, rfl⟩ := Option.ne_none_iff_exists'.1 (mt hidle.1 hphase)
    rw [follow_of_ne_idle hphase hphase]
    simpa [dispatched, absorbed] using h

/-- A party leaves its session, and perhaps it says so. -/
theorem Account.Settled.closes {a : Account}
    (h : a.Settled (Account.of phasePeer hadPeer appliedPeer editsPeer mailPeer))
    (hkept : ∀ l ∈ kept, ¬ l.IsStart) (hletters : ∀ l ∈ letters, l.IsStop) :
    (Account.of .idle none [] [] kept).Settled
      (Account.of phasePeer hadPeer appliedPeer editsPeer (mailPeer ++ letters)) := by
  obtain ⟨hblank, hclosed⟩ := blank_of_idle hkept
  rw [Account.of_append_of_stops hletters]
  exact h.close hblank hclosed

/-- A party takes in an update of its session. -/
theorem Account.Settled.takes {s : SessionId} {u : Update} {m : Postmark} {e : Edit}
    (phase' : Phase)
    (h : (Account.of phase (some s) applied edits (⟨.update u, m⟩ :: kept)).Settled peer)
    (hreceive : phase.backlog.receive? u = some (e, phase'.backlog)) :
    (Account.of phase' (some s) (applied ++ [u.sent]) edits kept).Settled peer :=
  h.take (show updatesIn (⟨.update u, m⟩ :: kept) = (u, m) :: updatesIn kept from rfl) rfl rfl rfl
    rfl hreceive

/-- Parties that were in no session begin one, and the peer may have the offer before it. -/
theorem Account.Settled.begins (phase' : Phase) {s : SessionId}
    (h : (Account.of .idle none applied edits kept).Settled
      (Account.of .idle hadPeer appliedPeer editsPeer mailPeer))
    (hbacklog : ∃ role, phase'.backlog = .start role) (hkept : ∀ l ∈ kept, l.IsStop)
    (hhad : hadPeer = none) (hmail : ∀ l ∈ mailPeer, ¬ l.IsStart)
    (hletters : ∀ l ∈ letters, l.IsStart) :
    (Account.of phase' (some s) applied edits kept).Settled
      (Account.of .idle hadPeer appliedPeer editsPeer (mailPeer ++ letters)) := by
  subst hhad
  obtain ⟨rfl, rfl⟩ := eq_nil_of_idle h.left
  obtain ⟨rfl, rfl⟩ := eq_nil_of_idle h.right
  obtain ⟨role, hrole⟩ := hbacklog
  refine .of_blank ⟨?_, ?_, ?_, ?_, rfl, rfl, ?_⟩ ⟨rfl, rfl, rfl, rfl, rfl, rfl, ?_⟩
  · exact congrArg Backlog.outstanding hrole
  · exact congrArg Backlog.sent hrole
  · exact congrArg Backlog.acknowledged hrole
  · exact congrArg Backlog.received hrole
  · exact updatesIn_eq_nil fun l hl => (hkept l hl).not_isUpdate
  · refine updatesIn_eq_nil fun l hl hupdate => ?_
    simp only [Option.isSome_none, Bool.false_eq_true, if_false, List.dropWhile_append,
      dropWhile_eq_nil hmail, List.isEmpty_nil, if_true] at hl
    exact hupdate.not_isStart (hletters l (List.dropWhile_subset _ hl))

variable {ids : Fin 2 → PeerId} {configs : Fin 2 → Config} {p : Fin 2} {mark : Option Postmark}

/-- What a party says about a write changes the accounts of both. -/
theorem Speaks.settled (hothers : (configs p.rev).limits.messageBytes ≤ Word.max)
    (h : Speaks limits phase out phase') (hproper : phase.Proper ids p)
    (hkind : phase.OfKind .backlog) (hidle : had = none ↔ phase = .idle)
    (hmark : ∀ m ∈ mark, m.applied = absorbed applied (follow p had phase phase' none) none)
    (hsettled : (Account.of phase had applied edits kept).Settled
      (Account.of phasePeer hadPeer appliedPeer editsPeer mailPeer)) :
    (Account.of phase' (follow p had phase phase' none)
        (absorbed applied (follow p had phase phase' none) none)
        (dispatched edits (follow p had phase phase' none)
          (updatesIn (posted (configs p.rev).limits mark out))) kept).Settled
      (Account.of phasePeer hadPeer appliedPeer editsPeer
        (mailPeer ++ posted (configs p.rev).limits mark out)) := by
  have hout := (h.proper hproper).2
  cases phase with
  | idle | offered =>
      obtain ⟨rfl, rfl⟩ := h.eq_of_not_live (by simp)
      rw [show posted (configs p.rev).limits mark [] = [] from rfl, List.append_nil]
      exact hsettled.rests hidle
  | live l =>
      obtain ⟨s, rfl⟩ := Option.ne_none_iff_exists'.1 (mt hidle.1 (by simp))
      obtain ⟨strategy, rfl⟩ := h.of_live
      exact hsettled.speaks hothers h hkind hout hmark

section Cases

variable {others : Limits} (hothers : others.messageBytes ≤ Word.max) {l : Letter}

include hothers

/-- What is said about the end of a session is no offer and no update. -/
theorem isStop_of_mem_posted (hl : l ∈ posted others mark (Message.stop.leaving limits)) :
    l.IsStop :=
  eq_of_mem_leaving (message_mem_of_mem_posted hothers
    (fun _ hm => (eq_of_mem_leaving hm).symm ▸ (show Message.stop.InWords from trivial)) hl)

theorem isStart_of_mem_posted {offer : Start} (hl : l ∈ posted others mark [.start offer]) :
    l.IsStart :=
  ⟨offer, List.mem_singleton.1 (message_mem_of_mem_posted hothers (by simp [Message.InWords]) hl)⟩

/-- A party offers a document to a peer that is in no session either. -/
theorem Account.Settled.starts {offer : Start} {live : Live} {role : Role} (s : SessionId)
    (hrole : live.strategy = .start .backlog role)
    (h : (Account.of .idle none applied edits kept).Settled
      (Account.of phasePeer hadPeer appliedPeer editsPeer mailPeer))
    (hfresh : phasePeer = .idle ∧ hadPeer = none ∧ (∀ l ∈ mailPeer, ¬ l.IsStart) ∧
      ∀ l ∈ kept, l.IsStop) :
    (Account.of (.live live) (some s) applied
        (dispatched edits (some s) (updatesIn (Session.posted others mark [.start offer])))
        kept).Settled
      (Account.of phasePeer hadPeer appliedPeer editsPeer
        (mailPeer ++ Session.posted others mark [.start offer])) := by
  obtain ⟨rfl, hhad, hmail, hkept⟩ := hfresh
  have hletters : ∀ l ∈ Session.posted others mark [.start offer], l.IsStart :=
    fun _ hl => isStart_of_mem_posted hothers hl
  have hnone : updatesIn (Session.posted others mark [.start offer]) = [] :=
    updatesIn_eq_nil fun l hl hupdate => hupdate.not_isStart (hletters l hl)
  have hbacklog : ∃ role, (Phase.live live).backlog = .start role :=
    ⟨role, by rw [Phase.backlog, hrole]; rfl⟩
  rw [hnone, dispatched, List.map_nil, List.append_nil]
  exact h.begins (.live live) hbacklog hkept hhad hmail hletters

/-- The backlog of an accepted offer begins with what was counted in the offer. -/
theorem Account.Settled.enters {s : SessionId} {o : Offered} {epoch d : Nat} {l : Live}
    {strategy : Strategy} (capture : Option Nat)
    (h : (Account.of (.offered o) (some s) applied edits kept).Settled
      (Account.of phasePeer hadPeer appliedPeer editsPeer mailPeer))
    (hskip : (Strategy.start .backlog .receiver).skip? o.buffered = some strategy)
    (hspeaks : Speaks limits (.live ⟨o.participants, epoch, d, none, strategy, true⟩) out (.live l))
    (hout : ∀ m ∈ out, m.InWords ∧ ∃ u, m = .update u)
    (hmark : ∀ m ∈ mark, m.applied = applied) :
    (Account.of (.live { l with capture := capture }) (some s) applied
        (dispatched edits (some s) (updatesIn (Session.posted others mark out))) kept).Settled
      (Account.of phasePeer hadPeer appliedPeer editsPeer
        (mailPeer ++ Session.posted others mark out)) := by
  obtain ⟨b, hb, rfl⟩ := Strategy.skip?_backlog_eq_some_iff.1 hskip
  obtain ⟨-, rfl⟩ := Backlog.skip?_start_eq_some_iff.1 hb
  have hentered : (Account.of (.live ⟨o.participants, epoch, d, none,
    .backlog (.joined o.buffered), true⟩) (some s) applied edits kept).Settled _ := h
  exact hentered.speaks hothers hspeaks (by rintro _ ⟨⟩; rfl) hout hmark

/-- A session applies an update, and what listeners add to it is said. -/
theorem Account.Settled.applies {s : SessionId} {u : Update} {m : Postmark} {e : Edit}
    {l l' : Live} {strategy : Strategy} (capture : Option Nat)
    (h : (Account.of (.live l) (some s) applied edits (⟨.update u, m⟩ :: kept)).Settled
      (Account.of phasePeer hadPeer appliedPeer editsPeer mailPeer))
    (hkind : l.strategy.kind = .backlog) (hreceive : l.strategy.receive? u = some (e, strategy))
    (hspeaks : Speaks limits
      (.live { l with strategy := strategy, confirmed := true, capture := none }) out (.live l'))
    (hout : ∀ m ∈ out, m.InWords ∧ ∃ u, m = .update u)
    (hmark : ∀ m ∈ mark, m.applied = applied ++ [u.sent]) :
    (Account.of (.live { l' with capture := capture }) (some s) (applied ++ [u.sent])
        (dispatched edits (some s) (updatesIn (Session.posted others mark out))) kept).Settled
      (Account.of phasePeer hadPeer appliedPeer editsPeer
        (mailPeer ++ Session.posted others mark out)) := by
  obtain ⟨b, hb⟩ := Strategy.exists_backlog hkind
  rw [hb] at hreceive
  obtain ⟨b', hb', rfl⟩ := Strategy.receive?_backlog_eq_some_iff.1 hreceive
  have hbacklog : (Phase.live l).backlog = b := by rw [Phase.backlog, hb]
  have htakes := h.takes (.live { l with
    strategy := .backlog b', confirmed := true, capture := none }) (e := e)
    (by rw [hbacklog]; exact hb')
  exact htakes.speaks hothers hspeaks (by rintro _ ⟨⟩; rfl) hout hmark

end Cases

/-- An idle party passes over what is no offer. -/
theorem Account.Settled.ignores {l : Letter} (hstart : l.message.isStart = false)
    (h : (Account.of .idle none applied edits (l :: kept)).Settled peer) :
    (Account.of .idle none [] [] kept).Settled peer := by
  obtain ⟨rfl, rfl⟩ := Account.eq_nil_of_idle h.left
  rwa [Account.of_cons_of_not_isStart] at h
  rintro ⟨offer, hoffer⟩
  rw [hoffer] at hstart
  cases hstart

/-- An offer absorbs an update. -/
theorem Account.Settled.absorbs {s : SessionId} {u : Update} {m : Postmark} {o o' : Offered}
    (h : (Account.of (.offered o) (some s) applied edits (⟨.update u, m⟩ :: kept)).Settled peer)
    (habsorb : o.absorb? limits u.edit = some (.ok (), o')) :
    (Account.of (.offered o') (some s) (applied ++ [u.sent]) edits kept).Settled peer := by
  obtain ⟨hle, hbuffered⟩ := Offered.buffered_of_absorb? habsorb
  exact h.takes (.offered o') (e := u.edit)
    (Backlog.receive?_joined_eq_some_iff.2 ⟨hle, rfl, congrArg Backlog.joined hbuffered⟩)

/-- What a turn of a party does to the accounts of both. -/
theorem Turn.settled (hdistinct : Distinct ids configs) (hcola : (configs p).strategy = .backlog)
    (h : Turn ids (configs p) p taken phase epochs out phase' epochs')
    (hproper : phase.Proper ids p) (hkind : phase.OfKind .backlog)
    (hread : Reads (configs p).limits taken handled) (hidle : had = none ↔ phase = .idle)
    (hclean : had ≠ none → ∀ l ∈ handled.toList ++ kept, ¬ l.IsStart)
    (hfresh : phase = .idle → phase'.document ≠ none → phasePeer = .idle ∧ hadPeer = none ∧
      (∀ l ∈ mailPeer, ¬ l.IsStart) ∧ ∀ l ∈ kept, l.IsStop)
    (hmark : ∀ m ∈ mark, m.applied =
      absorbed applied (follow p had phase phase' handled) handled)
    (hsettled : (Account.of phase had applied edits (handled.toList ++ kept)).Settled
      (Account.of phasePeer hadPeer appliedPeer editsPeer mailPeer)) :
    (Account.of phase' (follow p had phase phase' handled)
        (absorbed applied (follow p had phase phase' handled) handled)
        (dispatched edits (follow p had phase phase' handled)
          (updatesIn (posted (configs p.rev).limits mark out))) kept).Settled
      (Account.of phasePeer hadPeer appliedPeer editsPeer
        (mailPeer ++ posted (configs p.rev).limits mark out)) := by
  have hothers := hdistinct.messageBytes_le p.rev
  have hquiet : posted (configs p.rev).limits mark [] = [] := rfl
  have hlater : phase ≠ .idle → ∀ l ∈ kept, ¬ l.IsStart := fun hphase l hl =>
    hclean (mt hidle.1 hphase) l (List.mem_append_right _ hl)
  cases h with
  | speaks hspeaks =>
      obtain rfl := hread.eq_of_none
      exact hspeaks.settled hothers hproper hkind hidle hmark hsettled
  | fails =>
      obtain rfl := hread.eq_of_none
      rw [hquiet, List.append_nil]
      exact hsettled.rests hidle
  | @starts epochs d offer capture bytes =>
      obtain rfl := hread.eq_of_none
      obtain rfl := hidle.2 rfl
      exact hsettled.starts hothers ⟨p, epochs + 1⟩ (by rw [hcola])
        (hfresh rfl (Option.some_ne_none _))
  | enters hskip hspeaks =>
      obtain rfl := hread.eq_of_none
      obtain ⟨id, rfl⟩ := Option.ne_none_iff_exists'.1 (mt hidle.1 (by simp))
      have hout := (hspeaks.proper
        ⟨.inr hproper, (Strategy.inWords_start _ _).skip? hskip⟩).2
      rw [hcola] at hskip
      exact hsettled.enters hothers _ hskip hspeaks hout hmark
  | quits hphase =>
      obtain rfl := hread.eq_of_none
      exact hsettled.closes (hlater hphase) fun _ hl => isStop_of_mem_posted hothers hl
  | misses hdecode =>
      obtain rfl := hread.eq_none hdecode
      rw [hquiet, List.append_nil]
      exact hsettled.rests hidle
  | ignores hdecode hstart =>
      obtain ⟨m, rfl⟩ := hread.exists_eq hdecode
      obtain rfl := hidle.2 rfl
      rw [hquiet, List.append_nil]
      exact hsettled.ignores hstart
  | @isOffered offer epochs hdecode =>
      obtain ⟨m, rfl⟩ := hread.exists_eq hdecode
      obtain rfl := hidle.2 rfl
      have hoffer : (⟨.start offer, m⟩ : Letter).IsStart := ⟨offer, rfl⟩
      rw [Option.toList_some, List.singleton_append,
        Account.of_cons_of_isStart (.offered ⟨⟨ids p, ids p.rev, ids p⟩, offer.senderName,
          offer.fileName, offer.documentText, 0⟩) m.session hoffer rfl] at hsettled
      rw [hquiet, List.append_nil]
      simpa [dispatched, absorbed, updatesIn, follow] using hsettled
  | refuses hphase hdecode =>
      obtain ⟨m, rfl⟩ := hread.exists_eq hdecode
      exact absurd ⟨_, rfl⟩ (hclean (mt hidle.1 hphase) _ List.mem_cons_self)
  | absorbs hdecode habsorb =>
      obtain ⟨m, rfl⟩ := hread.exists_eq hdecode
      obtain ⟨s, rfl⟩ := Option.ne_none_iff_exists'.1 (mt hidle.1 (by simp))
      rw [follow_of_ne_idle (by simp) (by simp), hquiet, List.append_nil]
      simpa [dispatched, absorbed, updatesIn] using hsettled.absorbs habsorb
  | @applies u e l l' s capture out epochs hdecode hreceive hspeaks =>
      obtain ⟨m, rfl⟩ := hread.exists_eq hdecode
      obtain ⟨id, rfl⟩ := Option.ne_none_iff_exists'.1 (mt hidle.1 (by simp))
      have hout := (hspeaks.proper ⟨hproper.1, hproper.2.receive? hreceive⟩).2
      exact hsettled.applies hothers _ (hkind l rfl) hreceive hspeaks hout hmark
  | breaks hphase hdecode =>
      obtain ⟨m, rfl⟩ := hread.exists_eq hdecode
      exact hsettled.closes (hlater hphase) fun _ hl => isStop_of_mem_posted hothers hl
  | leaves hphase hdecode =>
      obtain ⟨m, rfl⟩ := hread.exists_eq hdecode
      exact hsettled.closes (hlater hphase) (by simp [hquiet])

end Turns

/-! ## Accounts along a run -/

variable {ids : Fin 2 → PeerId} {configs : Fin 2 → Config} {texts : List Text}
variable {posts posts' : Fin 2 → Post} {n : Chronicle} {w' : World} {p : Fin 2} {c : Call}

/-- The account of a party. -/
def Chronicle.account (n : Chronicle) (p : Fin 2) : Account :=
  .of (n.world.phase p) (n.notes p).session (n.notes p).applied (n.notes p).posted (n.mail p)

/-- The peer can read the edits that are noted down as sent. -/
theorem editsIn_map_payload {limits : Limits} {out : List Message} {mark : Option Postmark}
    (hmark : out ≠ [] → mark ≠ none) : editsIn limits (out.map Message.payload) =
      (updatesIn (posted limits mark out)).map fun x => x.1.sent := by
  cases mark with
  | none =>
      obtain rfl : out = [] := by_contra fun hout => hmark hout rfl
      rfl
  | some m =>
      rw [editsIn, updatesIn, posted, List.filterMap_map, List.filterMap_filterMap,
        List.map_filterMap]
      congr 1
      funext message
      simp only [Function.comp_apply, Option.bind_some, readLetter?]
      cases Message.decode limits message.payload with
      | error reason => rfl
      | ok m' => cases m' <;> rfl

namespace Episode

variable {taken : Option Message} {out : Fin 2 → List Message}
variable (h : Episode ids configs n c w' p taken posts out posts')

include h

theorem account_eq (q : Fin 2) : n.account q = .of (posts q).phase (n.notes q).session
    (n.notes q).applied (n.notes q).posted ((n.handled? c q).toList ++ lettersOf (configs q).limits
      ((posts q).inbox.drop (Chronicle.takes c q))
      ((n.notes q).marks.drop (Chronicle.takes c q))) := by
  rw [Chronicle.account, (h.phase_eq q).1, h.told.mail_eq_handled_append c]

/-- The account of a party after a call. -/
theorem account_next (hdistinct : Distinct ids configs) (q : Fin 2) :
    (n.next c w').account q = .of (posts' q).phase
      (follow q (n.notes q).session (posts q).phase (posts' q).phase (n.handled? c q))
      (absorbed (n.notes q).applied
        (follow q (n.notes q).session (posts q).phase (posts' q).phase (n.handled? c q))
        (n.handled? c q))
      (dispatched (n.notes q).posted
        (follow q (n.notes q).session (posts q).phase (posts' q).phase (n.handled? c q))
        (updatesIn (posted (configs q.rev).limits (n.postmark? c w' q) (out q))))
      (lettersOf (configs q).limits ((posts q).inbox.drop (Chronicle.takes c q))
          ((n.notes q).marks.drop (Chronicle.takes c q)) ++
        posted (configs q).limits (n.postmark? c w' q.rev) (out q.rev)) := by
  have hsession : n.sessionAfter c w' q =
      follow q (n.notes q).session (posts q).phase (posts' q).phase (n.handled? c q) :=
    h.session_next q
  have happlied : ((n.next c w').notes q).applied = absorbed (n.notes q).applied
      (n.sessionAfter c w' q) (n.handled? c q) := rfl
  have hposted : ((n.next c w').notes q).posted = dispatched (n.notes q).posted
      (n.sessionAfter c w' q)
      (updatesIn (posted (configs q.rev).limits (n.postmark? c w' q) (out q))) := by
    have hlimits := h.told.wired.limits_eq q.rev
    have harrivals := h.arrivals_eq q.rev
    rw [Fin.rev_rev] at harrivals
    show n.postedAfter c w' q = _
    rw [Chronicle.postedAfter, hlimits, harrivals, editsIn_map_payload (h.marked hdistinct q)]
    rfl
  rw [Chronicle.account, happlied, hposted, h.mail_next, ← hsession,
    show (n.next c w').world.phase q = _ from (h.phase_eq q).2]
  rfl

/-- A call keeps the accounts settled, if no session is begun with a hazard. -/
theorem settled (hdistinct : Distinct ids configs)
    (hcola : ∀ q, (configs q).strategy = .backlog)
    (hkind : ∀ q, (posts q).phase.OfKind .backlog) (hisolated : n.ledger.Isolated)
    (havoids : n.Starts w' p → ∀ k : Ledger.Hazard, ¬ k.Threatens n.ledger p)
    (hsettled : (n.account p).Settled (n.account p.rev)) :
    ((n.next c w').account p).Settled ((n.next c w').account p.rev) := by
  have hmark : ∀ q, ∀ m ∈ n.postmark? c w' q, m.applied = absorbed (n.notes q).applied
      (follow q (n.notes q).session (posts q).phase (posts' q).phase (n.handled? c q))
      (n.handled? c q) := by
    intro q m hm
    obtain ⟨s, -, rfl⟩ := Option.map_eq_some_iff.1 hm
    exact congrArg (absorbed _ · _) (h.session_next q)
  have hmail := h.told.mail_eq_handled_append c
  have hclean : (n.notes p).session ≠ none → ∀ l ∈ n.mail p, ¬ l.IsStart := by
    intro hsession l hl
    obtain ⟨s, hs⟩ := Option.ne_none_iff_exists'.1 hsession
    exact (hisolated.harmless hs l hl).1
  have hfresh : (posts p).phase = .idle → (posts' p).phase.document ≠ none →
      (posts p.rev).phase = .idle ∧ (n.notes p.rev).session = none ∧
        (∀ l ∈ n.mail p.rev, ¬ l.IsStart) ∧ ∀ l ∈ n.mail p, l.IsStop := by
    intro hphase hdocument
    rw [← (h.phase_eq p).1] at hphase
    rw [← (h.phase_eq p).2] at hdocument
    have hclear := havoids ⟨hphase, hdocument⟩
    have hpeer : (n.notes p.rev).session = none := not_not.1 (hclear .engagement)
    refine ⟨(h.told.idle p.rev).1 hpeer, hpeer, fun l hl hstart => hclear .offer ⟨l, hl, hstart⟩,
      fun l hl => l.isStop_of (fun hstart => ?_) fun hupdate => ?_⟩
    · exact hclear .counteroffer ⟨l, hl, hstart⟩
    · exact hclear .update ⟨l, hl, hupdate⟩
  rw [h.account_eq p, h.account_eq p.rev] at hsettled
  rw [hmail p] at hclean hfresh
  rw [hmail p.rev] at hfresh
  have hfirst := h.moves.turn.settled hdistinct (hcola p) (h.told.proper p).phase (hkind p)
    h.reads (h.told.idle p) hclean
    (fun hphase hdocument => by
      obtain ⟨h₁, h₂, h₃, h₄⟩ := hfresh hphase hdocument
      exact ⟨h₁, h₂, h₃, fun l hl => h₄ l (List.mem_append_right _ hl)⟩)
    (hmark p) hsettled
  have hrev := hmark p.rev
  rw [h.handled?_rev] at hrev hfirst
  have hsecond := h.moves.speaks.settled (p := p.rev) (by
    rw [Fin.rev_rev]
    exact hdistinct.messageBytes_le p) (h.told.proper p.rev).phase (hkind p.rev)
    (h.told.idle p.rev) hrev hfirst.symm
  rw [h.account_next hdistinct p, h.account_next hdistinct p.rev, h.handled?_rev, Fin.rev_rev]
  rw [Fin.rev_rev] at hsecond
  exact hsecond.symm

end Episode

theorem Episode.ofKind {taken : Option Message} {out : Fin 2 → List Message}
    (h : Episode ids configs n c w' p taken posts out posts')
    (hcola : ∀ q, (configs q).strategy = .backlog)
    (hkind : ∀ q, (posts q).phase.OfKind .backlog) (q : Fin 2) :
    (posts' q).phase.OfKind .backlog := by
  rcases eq_or_eq_rev p q with rfl | rfl
  · have hturn := h.moves.turn.ofKind (by
      rw [hcola]
      exact hkind q)
    rwa [hcola] at hturn
  · exact h.moves.speaks.ofKind (hkind p.rev)

theorem account_opening (hids : ids 0 ≠ ids 1) (configs : Fin 2 → Config) (texts : List Text)
    (p : Fin 2) : ((Chronicle.opening ids configs texts).account p).Blank := by
  rw [Chronicle.account, (told_opening hids configs texts).wired.phase_eq, Chronicle.mail_opening]
  exact (Account.blank_of_idle (by simp)).1

namespace Chronicle

/-- All along a run of sessions that keep apart, the accounts of the parties are settled. -/
theorem Reachable.settled (hdistinct : Distinct ids configs)
    (hcola : ∀ q, (configs q).strategy = .backlog)
    (h : Reachable ids configs texts (Avoids fun _ => True) n) (p : Fin 2) :
    ∃ posts, Told ids configs posts n ∧ (n.account p).Settled (n.account p.rev) := by
  obtain ⟨posts, htold, -, -, hsettled⟩ := h.invariant
    (P := fun posts n => n.ledger.Isolated ∧ (∀ q, (posts q).phase.OfKind .backlog) ∧
      ∀ q, (n.account q).Settled (n.account q.rev)) hdistinct
    ⟨isolated_opening, fun _ => nofun, fun q =>
      .of_blank (account_opening hdistinct.ids_ne configs texts q)
        (account_opening hdistinct.ids_ne configs texts q.rev)⟩ <| by
      rintro n c w' p taken posts out posts' ⟨hisolated, hkind, hsettled⟩ havoids hepisode
      have hclear := fun hstarts k => havoids p hstarts k trivial
      have hnext := hepisode.settled hdistinct hcola hkind hisolated hclear (hsettled p)
      refine ⟨hisolated.step (hepisode.step hdistinct) hclear, hepisode.ofKind hcola hkind,
        fun q => ?_⟩
      rcases eq_or_eq_rev p q with rfl | rfl
      · exact hnext
      · rw [Fin.rev_rev]
        exact hnext.symm
  exact ⟨posts, htold, hsettled p⟩

/-- In a session with backlogs, an update that a party handles was made when the peer had
applied as many of the edits that the party had sent as the update acknowledges, the oldest
ones.  Those are the edits that the party retires then, of the ones that are outstanding, if
and only if it has sent all of the edits with numbers as low as that. -/
theorem retired_iff_applied (hdistinct : Distinct ids configs)
    (hcola : ∀ q, (configs q).strategy = .backlog)
    (h : Reachable ids configs texts (Avoids fun _ => True) n) {l : Live} {b : Backlog}
    {u : Update} {m : Postmark} (hphase : n.world.phase p = .live l) (hb : l.strategy = .backlog b)
    (hu : n.oldest? p = some ⟨.update u, m⟩) :
    m.applied = (n.notes p).posted.take u.seen ∧
      ((∀ i < b.outstanding.length,
          i < (b.retired u.seen).length ↔ b.acknowledged + 1 + i ∈ m.applied) ↔
        ∀ j, 1 ≤ j → j ≤ u.seen → j ∈ (n.notes p).posted) := by
  obtain ⟨posts, htold, hsettled⟩ := h.settled hdistinct hcola p
  obtain ⟨rest, hmail⟩ := exists_mail_eq_of_oldest? hu
  have hsession : (n.notes p).session ≠ none := fun hnone => by
    have hidle := (htold.idle p).1 hnone
    rw [← htold.wired.phase_eq, hphase] at hidle
    cases hidle
  obtain ⟨s, hs⟩ := Option.ne_none_iff_exists'.1 hsession
  have hheard : (n.account p).heard = (u, m) :: updatesIn rest := by
    rw [account, hs, hmail]
    rfl
  have hbacklog : (n.account p).backlog = b := by
    show (n.world.phase p).backlog = b
    rw [hphase, Phase.backlog, hb]
  have hretired := hsettled.left.retired_iff hheard
  rw [hbacklog] at hretired
  exact ⟨(hsettled.left.heard (u, m) (hheard ▸ List.mem_cons_self)).2, hretired⟩

/-- The peer has applied the one of two edits when it makes its own, and that one is retired. -/
theorem retired_iff_applied_crossing :
    let ids : Fin 2 → PeerId := fun p => .ofByte (if p = 0 then 0xA1 else 0xB0)
    let texts : List Text := ["abc".toList, "stale".toList]
    let b : Backlog := ⟨[⟨0, 0, ['X']⟩, ⟨1, 0, ['Y']⟩], 2, 0, 0, .localFirst⟩
    let u : Update := ⟨⟨0, 0, ['U']⟩, 1, 1⟩
    ∃ n m, Reachable ids (fun _ => .usual) texts (Avoids fun _ => True) n ∧
      n.world.phase 0 = .live ⟨⟨ids 0, ids 0, ids 1⟩, 1, 0, some 1, .backlog b, false⟩ ∧
      n.oldest? 0 = some ⟨.update u, m⟩ ∧ m.applied = (n.notes 0).posted.take 1 ∧
      ∀ i < 2, i < (b.retired 1).length ↔ b.acknowledged + 1 + i ∈ m.applied := by
  intro ids texts b u
  have hrun : ∃ n ∈ (opening ids (fun _ => .usual) texts).run? (Avoids fun _ => True)
      [.start 0 (ids 0) none (ids 1) [] 0, .handleNext 1, .accept 1 1, .edit 0 ⟨0, 0, ['X']⟩,
        .edit 0 ⟨1, 0, ['Y']⟩, .handleNext 1, .edit 1 ⟨0, 0, ['U']⟩],
      n.world.phase 0 = .live ⟨⟨ids 0, ids 0, ids 1⟩, 1, 0, some 1, .backlog b, false⟩ ∧
        n.oldest? 0 = some ⟨.update u, ⟨⟨0, 1⟩, some 1, some 1, [1]⟩⟩ ∧
        (n.notes 0).posted = [1, 2] := by
    decide +kernel
  obtain ⟨n, hn, hphase, hu, hposted⟩ := hrun
  have hreachable := Reachable.init.run? (by decide) hn
  obtain ⟨happlied, hiff⟩ := retired_iff_applied ⟨by decide, fun _ => by decide⟩ (fun _ => rfl)
    hreachable hphase rfl hu
  refine ⟨n, _, hreachable, hphase, hu, happlied, hiff.2 fun j hj hjseen => ?_⟩
  rw [hposted, show j = 1 from Nat.le_antisymm hjseen hj]
  exact List.mem_cons_self

/-- The first of two edits cannot be sent.  The peer applies the second one, and the first
one is retired for it. -/
theorem retires_unsent :
    let ids : Fin 2 → PeerId := fun p => .ofByte (if p = 0 then 0xA1 else 0xB0)
    let narrow : Fin 2 → Config := fun _ =>
      ⟨{ Limits.usual with insertChars := 2 }, .backlog, 64⟩
    let texts : List Text := ["abcdefgh".toList, "stale".toList]
    let b : Backlog := ⟨[⟨0, 0, "xyz".toList⟩, ⟨7, 0, "pq".toList⟩], 2, 0, 0, .localFirst⟩
    let u : Update := ⟨⟨10, 0, "U".toList⟩, 1, 1⟩
    ∃ n m, Reachable ids narrow texts (Avoids fun _ => True) n ∧
      n.world.phase 0 = .live ⟨⟨ids 0, ids 0, ids 1⟩, 1, 0, some 1, .backlog b, false⟩ ∧
      n.oldest? 0 = some ⟨.update u, m⟩ ∧ m.applied = [2] ∧
      b.retired u.seen = [⟨0, 0, "xyz".toList⟩] ∧ b.unseen u.seen = [⟨7, 0, "pq".toList⟩] := by
  intro ids narrow texts b u
  have hrun : ∃ n ∈ (opening ids narrow texts).run? (Avoids fun _ => True)
      [.start 0 (ids 0) none (ids 1) [] 0, .handleNext 1, .accept 1 1,
        .edit 0 ⟨0, 0, "xyz".toList⟩, .edit 0 ⟨7, 0, "pq".toList⟩, .handleNext 1,
        .edit 1 ⟨10, 0, "U".toList⟩],
      n.world.phase 0 = .live ⟨⟨ids 0, ids 0, ids 1⟩, 1, 0, some 1, .backlog b, false⟩ ∧
        n.oldest? 0 = some ⟨.update u, ⟨⟨0, 1⟩, some 1, some 1, [2]⟩⟩ := by
    decide +kernel
  obtain ⟨n, hn, hphase, hu⟩ := hrun
  exact ⟨n, _, Reachable.init.run? (by decide) hn, hphase, hu, rfl, rfl, rfl⟩

end Chronicle

end Session

end PairEdit
