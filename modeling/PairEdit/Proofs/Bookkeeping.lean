import PairEdit.Proofs.Chronicle

/-!
# Runs as they are told in the ledger

Each turn of a party is an entry in the ledger of sessions, and what the other party says about
it is an act.  This takes that the notes fit what they are about: a party is idle exactly if
it has no session, and every message in a queue has a postmark.
-/

namespace PairEdit.Session

open Function Ledger

variable {ids : Fin 2 → PeerId} {configs : Fin 2 → Config} {texts : List Text}
variable {posts posts' : Fin 2 → Post} {n : Chronicle} {w' : World} {p : Fin 2} {c : Call}

/-- Who keeps to limits that a message about the end of a session keeps to. -/
def fitting (configs : Fin 2 → Config) (p : Fin 2) : Prop := Fits (configs p).limits

/-- What a turn comes to in the ledger. -/
structure Books (configs : Fin 2 → Config) (p : Fin 2) (b : Ledger) (phase phase' : Phase)
    (handled : Option Letter) (kept : List Letter) (mark : Option Postmark) (out : List Message)
    (epochs : Nat) : Prop where
  turnEffect : TurnEffect (fitting configs) p b (phase = .idle ∧ phase'.document ≠ none) handled
    (follow p (b.session p) phase phase' handled) kept (posted (configs p.rev).limits mark out)
    epochs
  idle : follow p (b.session p) phase phase' handled = none ↔ phase' = .idle
  marked : out ≠ [] → mark ≠ none
  fits : phase' ≠ .idle → fitting configs p

/-- What a party reads of the message that it takes, if it takes one. -/
inductive Reads (limits : Limits) : Option Message → Option Letter → Prop
  | nothing : Reads limits none none
  | message (m : Message) (mark : Postmark) :
      Reads limits (some m) (readLetter? limits m.payload mark)

section Turns

variable {b : Ledger} {phase phase' : Phase} {epochs epochs' : Nat} {out : List Message}
variable {taken : Option Message} {handled : Option Letter} {kept : List Letter}
variable {mark : Option Postmark} {had : Option SessionId}

theorem Reads.exists_eq {limits : Limits} {m m' : Message} (h : Reads limits (some m) handled)
    (hdecode : Message.decode limits m.payload = .ok m') : ∃ mark, handled = some ⟨m', mark⟩ := by
  cases h with
  | message m mark => exact ⟨mark, by rw [readLetter?, hdecode]⟩

theorem Reads.eq_none {limits : Limits} {m : Message} (h : Reads limits (some m) handled)
    (hdecode : ∀ m', Message.decode limits m.payload ≠ .ok m') : handled = none := by
  cases h with
  | message m mark =>
      unfold readLetter?
      split
      · next m' hok => exact absurd hok (hdecode m')
      · rfl

theorem follow_idle : follow p had phase .idle handled = none := rfl

/-- A party that was in a session or had an offer keeps it, until it is idle. -/
theorem follow_of_ne_idle (h : phase ≠ .idle) (h' : phase' ≠ .idle) :
    follow p had phase phase' handled = had := by
  cases phase' with
  | idle => exact absurd rfl h'
  | offered | live => exact if_neg h

theorem concern_of_not_isStart {now : Option SessionId} {m : Message} {mark : Postmark}
    (h : m.isStart = false) : concern had now (some ⟨m, mark⟩) = now.or had := by
  cases m with
  | start offer => cases h
  | update u => rfl
  | stop => rfl

theorem exists_mark {s : SessionId} (h : mark.map (fun m => m.session) = some s) :
    ∃ m, mark = some m ∧ m.session = s :=
  Option.map_eq_some_iff.1 h

theorem Reads.eq_of_none {limits : Limits} (h : Reads limits none handled) : handled = none := by
  cases h
  rfl

variable (hdistinct : Distinct ids configs) (hread : Reads (configs p).limits taken handled)
variable (hmail : b.mail p = handled.toList ++ kept) (hepochs : b.epochs p = epochs)
variable (hfits : phase ≠ .idle → fitting configs p)
variable (hidle : b.session p = none ↔ phase = .idle)
variable (hmark : mark.map (fun m => m.session) =
  concern (b.session p) (follow p (b.session p) phase phase' handled) handled)

include hidle in
theorem exists_session (h : phase ≠ .idle) : ∃ s, b.session p = some s :=
  Option.ne_none_iff_exists'.1 fun hnone => h (hidle.1 hnone)

include hdistinct hfits hidle hmark in
/-- What a party says in its session is told as updates of it. -/
theorem Books.of_updates (hphase : phase ≠ .idle) (hphase' : phase' ≠ .idle)
    (hout : ∀ m ∈ out, m.InWords ∧ ∃ u, m = .update u)
    (hhandled : ∀ l ∈ handled, l.message.isStart = false)
    (hepochs : b.epochs p ≤ epochs')
    (hact : ∀ s letters, b.session p = some s → Updates s letters →
      Act (fitting configs) p b (some s) kept letters) :
    Books configs p b phase phase' handled kept mark out epochs' := by
  obtain ⟨s, hs⟩ := exists_session hidle hphase
  have hfollow : follow p (b.session p) phase phase' handled = some s := by
    rw [follow_of_ne_idle hphase hphase', hs]
  have hconcern : concern (b.session p) (some s) handled = some s := by
    cases handled with
    | none => rfl
    | some l => exact concern_of_not_isStart (hhandled l rfl)
  rw [hfollow, hconcern] at hmark
  obtain ⟨m, rfl, rfl⟩ := exists_mark hmark
  refine ⟨?_, ?_, fun _ => Option.some_ne_none m, fun _ => hfits hphase⟩
  · rw [hfollow]
    exact .act (hact _ _ hs (updates_posted (hdistinct.messageBytes_le p.rev) hout)) hepochs
  · simp [hfollow, hphase']

omit hidle in
include hdistinct hfits in
/-- What a party says about the end of a session reaches a peer that it fits. -/
theorem exists_stopped {s : SessionId} (hphase : phase ≠ .idle)
    (hmark : mark.map (fun m => m.session) = some s) :
    mark ≠ none ∧ Stopped (fitting configs) p.rev s
      (posted (configs p.rev).limits mark (Message.stop.leaving (configs p).limits)) := by
  obtain ⟨m, rfl, rfl⟩ := exists_mark hmark
  exact ⟨Option.some_ne_none m, stopped_posted (hdistinct.messageBytes_le p.rev) (hfits hphase)⟩

include hfits hidle in
/-- A party that does nothing keeps its session. -/
theorem Books.of_rests (hkept : b.mail p = kept) (hepochs : b.epochs p ≤ epochs') :
    Books configs p b phase phase none kept mark [] epochs' := by
  subst hkept
  by_cases hphase : phase = .idle
  · subst hphase
    refine ⟨.act ?_ hepochs, by simp [follow], by simp, by simp⟩
    rw [follow_idle, ← hidle.2 rfl]
    exact .rests
  · have hfollow : follow p (b.session p) phase phase none = b.session p :=
      follow_of_ne_idle hphase hphase
    refine ⟨.act ?_ hepochs, by rw [hfollow, hidle], by simp, hfits⟩
    rw [hfollow]
    exact .rests

include hdistinct hfits hidle hmark in
/-- A party speaks about what is written, if it has a session, and otherwise does nothing. -/
theorem Books.of_speaks (h : Speaks (configs p).limits phase out phase')
    (hproper : phase.Proper ids p) (hhandled : handled = none) (hkept : b.mail p = kept)
    (hepochs : b.epochs p ≤ epochs') :
    Books configs p b phase phase' handled kept mark out epochs' := by
  subst hhandled
  have hout := (h.proper hproper).2
  cases phase with
  | idle | offered =>
      obtain ⟨rfl, rfl⟩ := h.eq_of_not_live (by simp)
      exact .of_rests hfits hidle hkept hepochs
  | live l =>
      obtain ⟨s, rfl⟩ := h.of_live
      subst hkept
      exact .of_updates hdistinct hfits hidle hmark (by simp) (by simp) hout (by simp) hepochs
        fun s letters hs hletters => .speaks hs hletters

omit hfits in
include hdistinct hidle hmark in
/-- A party offers a document; the peer can read the offer, or misses it. -/
theorem Books.of_starts {offer : Start} {l : Live} {bytes : Bytes}
    (hencode : (Message.start offer).encode (configs p).limits = .ok bytes)
    (hphase : phase = .idle) (hphase' : phase' = .live l) (hhandled : handled = none)
    (hkept : b.mail p = kept) (hepochs : b.epochs p < l.epoch) :
    Books configs p b phase phase' handled kept mark [.start offer] l.epoch := by
  subst hphase hphase' hhandled hkept
  have hself : fitting configs p := fits_of_start
    (Message.eq_payload_of_encode hencode ▸ (Message.encode_eq_ok_iff.1 hencode).2.2)
  obtain ⟨m, rfl, hm⟩ := exists_mark hmark
  refine ⟨.begins ⟨rfl, Option.some_ne_none _⟩ ⟨hidle.2 rfl, rfl, hepochs, Nat.le_refl _, hself,
    ?_⟩, by simp [follow], by simp, fun _ => hself⟩
  rcases posted_start (hdistinct.messageBytes_le p.rev) offer with hnone | ⟨hrev, hone⟩
  · exact .inl hnone
  · exact .inr ⟨hrev, _, ⟨offer, rfl⟩, hm, hone⟩

include hdistinct hfits hidle hmark in
/-- A party ends its session and says so. -/
theorem Books.of_stops (hphase : phase ≠ .idle) (hphase' : phase' = .idle)
    (hhandled : ∀ l ∈ handled, l.message.isStart = false) (hepochs : b.epochs p ≤ epochs')
    (hact : ∀ s letters, b.session p = some s → Stopped (fitting configs) p.rev s letters →
      Act (fitting configs) p b none kept letters) :
    Books configs p b phase phase' handled kept mark (Message.stop.leaving (configs p).limits)
      epochs' := by
  subst hphase'
  obtain ⟨s, hs⟩ := exists_session hidle hphase
  have hconcern : concern (b.session p) none handled = some s := by
    cases handled with
    | none => exact hs
    | some l => exact (concern_of_not_isStart (hhandled l rfl)).trans hs
  rw [follow_idle, hconcern] at hmark
  obtain ⟨hmark, hstopped⟩ := exists_stopped hdistinct hfits hphase hmark
  exact ⟨.act (hact s _ hs hstopped) hepochs, by simp [follow], fun _ => hmark, by simp⟩

include hdistinct hfits hidle hmark in
/-- A party that has a session refuses an offer. -/
theorem Books.of_refuses {offer : Start} {m : Postmark} (hphase : phase ≠ .idle)
    (hphase' : phase' = phase) (hhandled : handled = some ⟨.start offer, m⟩)
    (hmail : b.mail p = ⟨.start offer, m⟩ :: kept) (hepochs : b.epochs p ≤ epochs') :
    Books configs p b phase phase' handled kept mark (Message.stop.leaving (configs p).limits)
      epochs' := by
  subst hphase' hhandled
  obtain ⟨s, hs⟩ := exists_session hidle hphase
  obtain ⟨hmark, hstopped⟩ := exists_stopped hdistinct hfits hphase hmark
  refine ⟨.act ?_ hepochs, ?_, fun _ => hmark, hfits⟩
  · rw [follow_of_ne_idle hphase hphase, hs]
    exact .refuses hs hmail ⟨_, rfl⟩ hstopped
  · rw [follow_of_ne_idle hphase hphase, hidle]

include hdistinct hfits hidle hmark in
/-- A party applies an update, or takes it into its offer. -/
theorem Books.of_applies {u : Update} {m : Postmark} (hphase : phase ≠ .idle)
    (hphase' : phase' ≠ .idle) (hhandled : handled = some ⟨.update u, m⟩)
    (hmail : b.mail p = ⟨.update u, m⟩ :: kept) (hepochs : b.epochs p ≤ epochs')
    (hout : ∀ m ∈ out, m.InWords ∧ ∃ u, m = .update u) :
    Books configs p b phase phase' handled kept mark out epochs' := by
  subst hhandled
  refine .of_updates hdistinct hfits hidle hmark hphase hphase' hout ?_ hepochs
    fun s letters hs hletters => .applies hs hmail ⟨_, rfl⟩ hletters
  rintro _ ⟨⟩
  rfl

include hdistinct hread hmail hepochs hfits hidle hmark in
/-- Every turn is told in the ledger. -/
theorem Turn.books (h : Turn ids (configs p) p taken phase epochs out phase' epochs')
    (hproper : phase.Proper ids p) :
    Books configs p b phase phase' handled kept mark out epochs' := by
  have hle : b.epochs p ≤ epochs := hepochs.le
  cases h with
  | speaks hspeaks =>
      obtain rfl := hread.eq_of_none
      exact .of_speaks hdistinct hfits hidle hmark hspeaks hproper rfl hmail hle
  | fails =>
      obtain rfl := hread.eq_of_none
      exact .of_rests hfits hidle hmail (Nat.le_succ_of_le hle)
  | starts _ _ hencode =>
      obtain rfl := hread.eq_of_none
      exact .of_starts hdistinct hidle hmark hencode rfl rfl rfl hmail (Nat.lt_succ_of_le hle)
  | enters hskip hspeaks =>
      obtain rfl := hread.eq_of_none
      obtain rfl : b.mail p = kept := hmail
      have hout := (hspeaks.proper
        ⟨.inr hproper, (Strategy.inWords_start _ _).skip? hskip⟩).2
      exact .of_updates hdistinct hfits hidle hmark (by simp) (by simp) hout (by simp)
        (Nat.le_succ_of_le hle) fun s letters hs hletters => .speaks hs hletters
  | quits hphase hepochs' =>
      obtain rfl := hread.eq_of_none
      obtain rfl : b.mail p = kept := hmail
      exact .of_stops hdistinct hfits hidle hmark hphase rfl (by simp) (Nat.le_trans hle hepochs')
        fun s letters hs hstopped => .quits hs hstopped
  | misses hdecode =>
      obtain rfl := hread.eq_none hdecode
      exact .of_rests hfits hidle hmail hle
  | ignores hdecode hstart =>
      obtain ⟨m, rfl⟩ := hread.exists_eq hdecode
      refine ⟨.act (.ignores (hidle.2 rfl) hmail ?_) hle, by simp [follow], by simp, by simp⟩
      rintro ⟨offer, hoffer⟩
      dsimp only at hoffer
      rw [hoffer] at hstart
      cases hstart
  | isOffered hdecode =>
      obtain ⟨m, rfl⟩ := hread.exists_eq hdecode
      refine ⟨.act ?_ hle, by simp [follow], by simp,
        fun _ => fits_of_start (length_le_of_decode hdecode)⟩
      exact .isOffered (hidle.2 rfl) hmail ⟨_, rfl⟩
  | refuses hphase hdecode =>
      obtain ⟨m, rfl⟩ := hread.exists_eq hdecode
      exact .of_refuses hdistinct hfits hidle hmark hphase rfl rfl hmail hle
  | absorbs hdecode =>
      obtain ⟨m, rfl⟩ := hread.exists_eq hdecode
      exact .of_applies hdistinct hfits hidle hmark (by simp) (by simp) rfl hmail hle (by simp)
  | applies hdecode hreceive hspeaks =>
      obtain ⟨m, rfl⟩ := hread.exists_eq hdecode
      have hout := (hspeaks.proper ⟨hproper.1, hproper.2.receive? hreceive⟩).2
      exact .of_applies hdistinct hfits hidle hmark (by simp) (by simp) rfl hmail hle hout
  | breaks hphase hdecode =>
      obtain ⟨m, rfl⟩ := hread.exists_eq hdecode
      refine .of_stops hdistinct hfits hidle hmark hphase rfl ?_ hle
        fun s letters hs hstopped => .breaks hs hmail ⟨_, rfl⟩ hstopped
      rintro _ ⟨⟩
      rfl
  | leaves hphase hdecode =>
      obtain ⟨m, rfl⟩ := hread.exists_eq hdecode
      obtain ⟨s, hs⟩ := exists_session hidle hphase
      refine ⟨?_, by simp [follow], by simp, by simp⟩
      rw [← hepochs]
      exact .leaves rfl ⟨hs, hmail, rfl⟩

end Turns

/-! ## The notes along a run -/

/-- The notes are about the world: a party is idle exactly if it has no session, and every
message in a queue has a postmark. -/
structure Told (ids : Fin 2 → PeerId) (configs : Fin 2 → Config) (posts : Fin 2 → Post)
    (n : Chronicle) : Prop where
  wired : Wired ids configs posts n.world
  proper : ∀ p, (posts p).Proper ids p
  idle : ∀ p, (n.notes p).session = none ↔ (posts p).phase = .idle
  fits : ∀ p, (posts p).phase ≠ .idle → fitting configs p
  marks : ∀ p, (posts p).inbox.length = (n.notes p).marks.length

theorem Wired.inbox_eq {w : World} (h : Wired ids configs posts w) (p : Fin 2) :
    w.inbox p = (posts p).inbox.map Message.payload := by
  rw [World.inbox, h.endpoint_eq, List.filterMap_map]
  exact congrFun List.filterMap_eq_map' _

namespace Told

variable (h : Told ids configs posts n)

include h

theorem mail_eq (p : Fin 2) :
    n.mail p = lettersOf (configs p).limits (posts p).inbox (n.notes p).marks := by
  rw [Chronicle.mail, h.wired.inbox_eq, h.wired.limits_eq, List.zip_map_left, List.filterMap_map]
  rfl

/-- What a party takes off its queue is the oldest of what it can read, or cannot be read. -/
theorem mail_eq_handled_append (c : Call) (p : Fin 2) :
    n.mail p = (n.handled? c p).toList ++ lettersOf (configs p).limits
      ((posts p).inbox.drop (Chronicle.takes c p))
      ((n.notes p).marks.drop (Chronicle.takes c p)) := by
  rw [h.mail_eq, Chronicle.handled?, Chronicle.takes]
  split
  · have hmarks := h.marks p
    rw [Chronicle.oldest?, h.wired.inbox_eq, h.wired.limits_eq]
    cases hinbox : (posts p).inbox with
    | nil => simp [lettersOf]
    | cons m rest =>
        cases hnotes : (n.notes p).marks with
        | nil => simp [hinbox, hnotes] at hmarks
        | cons mark marks => exact lettersOf_cons ..
  · simp

theorem reads (p : Fin 2) :
    Reads (configs p).limits (posts p).inbox.head? (n.oldest? p) := by
  have hmarks := h.marks p
  rw [Chronicle.oldest?, h.wired.inbox_eq, h.wired.limits_eq]
  cases hinbox : (posts p).inbox with
  | nil => exact .nothing
  | cons m rest =>
      cases hnotes : (n.notes p).marks with
      | nil => simp [hinbox, hnotes] at hmarks
      | cons mark marks => exact .message m mark

end Told

/-- A call of a run, in which one party has its turn. -/
structure Episode (ids : Fin 2 → PeerId) (configs : Fin 2 → Config) (n : Chronicle) (c : Call)
    (w' : World) (p : Fin 2) (taken : Option Message) (posts : Fin 2 → Post)
    (out : Fin 2 → List Message) (posts' : Fin 2 → Post) : Prop where
  told : Told ids configs posts n
  wired : Wired ids configs posts' w'
  moves : Moves ids configs p taken (n.world.written c) posts out posts'
  takes : c = .handleNext p ∧ taken = (posts p).inbox.head? ∨
    taken = none ∧ ∀ q : Fin 2, c ≠ .handleNext q

namespace Episode

variable {taken : Option Message} {out : Fin 2 → List Message}
variable (h : Episode ids configs n c w' p taken posts out posts')

include h

theorem ne_handleNext_rev : c ≠ .handleNext p.rev := by
  rcases h.takes with ⟨rfl, -⟩ | ⟨-, hne⟩
  · intro heq
    rw [Call.handleNext.injEq] at heq
    exact ne_rev p (Fin.ext heq)
  · exact hne p.rev

theorem handled?_rev : n.handled? c p.rev = none := if_neg h.ne_handleNext_rev

theorem reads : Reads (configs p).limits taken (n.handled? c p) := by
  rcases h.takes with ⟨rfl, rfl⟩ | ⟨rfl, hne⟩
  · rw [Chronicle.handled?, if_pos rfl]
    exact h.told.reads p
  · rw [Chronicle.handled?, if_neg (hne p)]
    exact .nothing

/-- A queue loses what is taken off it, and gets what the peer says. -/
theorem inbox_eq (q : Fin 2) :
    (posts' q).inbox = (posts q).inbox.drop (Chronicle.takes c q) ++ out q.rev := by
  rcases eq_or_eq_rev p q with rfl | rfl
  · obtain ⟨kept, hinbox, hkept⟩ := h.moves.takes
    rw [hkept]
    congr 1
    rcases h.takes with ⟨rfl, rfl⟩ | ⟨rfl, hne⟩
    · rw [Chronicle.takes, if_pos rfl]
      cases hcase : (posts q).inbox with
      | nil =>
          rw [hcase] at hinbox
          exact hinbox.symm
      | cons m rest =>
          rw [hcase] at hinbox
          exact (List.cons.inj hinbox).2.symm
    · rw [Chronicle.takes, if_neg (hne q), hinbox]
      rfl
  · rw [h.moves.inbox_eq, Chronicle.takes, if_neg h.ne_handleNext_rev, Fin.rev_rev]
    rfl

theorem arrivals_eq (q : Fin 2) : n.arrivals c w' q = (out q.rev).map Message.payload := by
  rw [Chronicle.arrivals, h.wired.inbox_eq, h.told.wired.inbox_eq, h.inbox_eq q, List.map_append]
  exact List.drop_left' (by simp)

theorem phase_eq (q : Fin 2) :
    n.world.phase q = (posts q).phase ∧ w'.phase q = (posts' q).phase :=
  ⟨h.told.wired.phase_eq q, h.wired.phase_eq q⟩

/-- What is left of the mail of a party. -/
theorem mail_next (q : Fin 2) : (n.next c w').mail q =
    lettersOf (configs q).limits ((posts q).inbox.drop (Chronicle.takes c q))
      ((n.notes q).marks.drop (Chronicle.takes c q)) ++
      posted (configs q).limits (n.postmark? c w' q.rev) (out q.rev) := by
  have hmarks : ((posts q).inbox.drop (Chronicle.takes c q)).length =
      ((n.notes q).marks.drop (Chronicle.takes c q)).length := by
    rw [List.length_drop, List.length_drop, h.told.marks]
  rw [Chronicle.mail, Chronicle.next]
  dsimp only
  rw [h.wired.inbox_eq, h.wired.limits_eq, Chronicle.notesAfter, h.arrivals_eq, h.inbox_eq,
    List.length_map, ← lettersOf_replicate, ← lettersOf_append hmarks, lettersOf,
    List.zip_map_left, List.filterMap_map]
  rfl

theorem session_next (q : Fin 2) : (n.next c w').ledger.session q =
    follow q (n.ledger.session q) (posts q).phase (posts' q).phase (n.handled? c q) := by
  rw [← (h.phase_eq q).1, ← (h.phase_eq q).2]
  rfl

theorem map_session_postmark? (q : Fin 2) :
    (n.postmark? c w' q).map (fun m => m.session) = concern (n.ledger.session q)
      (follow q (n.ledger.session q) (posts q).phase (posts' q).phase (n.handled? c q))
      (n.handled? c q) := by
  rw [← h.session_next q, Chronicle.postmark?, Option.map_map]
  exact Option.map_id'

/-- What the turn of a party comes to. -/
theorem books (hdistinct : Distinct ids configs) :
    Books configs p n.ledger (posts p).phase (posts' p).phase (n.handled? c p)
      (lettersOf (configs p).limits ((posts p).inbox.drop (Chronicle.takes c p))
        ((n.notes p).marks.drop (Chronicle.takes c p)))
      (n.postmark? c w' p) (out p) (posts' p).epochs :=
  h.moves.turn.books hdistinct h.reads (h.told.mail_eq_handled_append c p)
    (h.told.wired.epochs_eq p) (h.told.fits p) (h.told.idle p) (h.map_session_postmark? p)
    (h.told.proper p).phase

/-- What the other party says, after the turn of the first one. -/
theorem books_rev (hdistinct : Distinct ids configs) (session : Option SessionId)
    (kept posted : List Letter) (epochs : Nat) :
    Books configs p.rev (n.ledger.turn p session kept posted epochs) (posts p.rev).phase
      (posts' p.rev).phase none (n.mail p.rev ++ posted) (n.postmark? c w' p.rev) (out p.rev)
      (posts p.rev).epochs := by
  have hmark := h.map_session_postmark? p.rev
  rw [h.handled?_rev] at hmark
  have hturn : Turn ids (configs p.rev) p.rev none _ (posts p.rev).epochs _ _ _ :=
    .speaks h.moves.speaks
  refine hturn.books hdistinct .nothing ?_ ?_ (h.told.fits p.rev) ?_ ?_ (h.told.proper p.rev).phase
  · rw [Ledger.mail_turn_rev]
    rfl
  · rw [Ledger.epochs_turn_rev]
    exact h.told.wired.epochs_eq p.rev
  · rw [Ledger.session_turn_rev]
    exact h.told.idle p.rev
  · rw [Ledger.session_turn_rev]
    exact hmark

/-- The other party only speaks, so it mixes up no sessions. -/
theorem act_rev (hdistinct : Distinct ids configs) (session : Option SessionId)
    (kept posted : List Letter) (epochs : Nat) :
    Act (fitting configs) p.rev (n.ledger.turn p session kept posted epochs)
      ((n.next c w').ledger.session p.rev) (n.mail p.rev ++ posted)
      (Session.posted (configs p).limits (n.postmark? c w' p.rev) (out p.rev)) := by
  have heffect := (h.books_rev hdistinct session kept posted epochs).turnEffect
  rw [Fin.rev_rev, Ledger.session_turn_rev] at heffect
  rw [h.session_next, h.handled?_rev]
  refine heffect.act_of_not fun hnew => hnew.2 ?_
  rw [(h.moves.speaks.eq_of_not_live (by simp [hnew.1])).1, hnew.1]
  rfl

/-- A call is told in the ledger. -/
theorem step (hdistinct : Distinct ids configs) :
    Ledger.Step (fitting configs) p (n.Starts w' p) (n.handled? c p) n.ledger
      (n.next c w').ledger := by
  have heffect := (h.books hdistinct).turnEffect
  rw [← h.session_next, ← (h.phase_eq p).1, ← (h.phase_eq p).2] at heffect
  have hmail := h.told.mail_eq_handled_append c p.rev
  rw [h.handled?_rev] at hmail
  have hnext := h.mail_next p.rev
  rw [Fin.rev_rev] at hnext
  have hepochs := h.wired.epochs_eq p.rev
  rw [h.moves.epochs_eq, ← h.told.wired.epochs_eq] at hepochs
  have hstep := Ledger.Step.intro heffect (h.act_rev hdistinct _ _ _ _)
  rwa [turn_turn_eq rfl rfl (h.mail_next p)
    (hnext.trans (congrArg (· ++ _) hmail.symm)) (h.wired.epochs_eq p) hepochs] at hstep

theorem marked (hdistinct : Distinct ids configs) (q : Fin 2) (hout : out q ≠ []) :
    n.postmark? c w' q ≠ none := by
  rcases eq_or_eq_rev p q with rfl | rfl
  · exact (h.books hdistinct).marked hout
  · exact (h.books_rev hdistinct none [] [] 0).marked hout

/-- The notes stay about the world. -/
theorem told_next (hdistinct : Distinct ids configs) :
    Told ids configs posts' (n.next c w') := by
  have hbooks := h.books hdistinct
  have hrev := h.books_rev hdistinct none [] [] 0
  refine ⟨h.wired, h.moves.proper h.told.proper, ?_, ?_, ?_⟩
  · intro q
    refine Iff.trans (Eq.congr_left (h.session_next q)) ?_
    rcases eq_or_eq_rev p q with rfl | rfl
    · exact hbooks.idle
    · have hidle := hrev.idle
      rwa [Ledger.session_turn_rev, ← h.handled?_rev] at hidle
  · intro q
    rcases eq_or_eq_rev p q with rfl | rfl
    · exact hbooks.fits
    · exact hrev.fits
  · intro q
    show _ = (n.notesAfter c w' q).marks.length
    rw [Chronicle.notesAfter, h.inbox_eq, h.arrivals_eq, List.length_append, List.length_append,
      List.length_drop, List.length_drop, h.told.marks]
    congr 1
    cases hmark : n.postmark? c w' q.rev with
    | none =>
        have hout : out q.rev = [] := by_contra fun hout => h.marked hdistinct q.rev hout hmark
        rw [hout]
        rfl
    | some mark => simp

end Episode

/-- Whatever is called, one party has its turn. -/
theorem Told.exists_episode (h : Told ids configs posts n) (hdistinct : Distinct ids configs)
    {outcome : Outcome} (hc : Interaction c) (hrun : n.world.run c = .ok (outcome, w')) :
    ∃ p taken out posts', Episode ids configs n c w' p taken posts out posts' := by
  obtain ⟨p, taken, out, posts', hw', hmoves, htakes⟩ := h.wired.run hdistinct h.proper hc hrun
  exact ⟨p, taken, out, posts', h, hw', hmoves, htakes⟩

/-! ## Where a run begins -/

/-- A party that has not done anything. -/
def Post.fresh : Post := ⟨.idle, 0, []⟩

theorem Wired.addDocument {w : World} (h : Wired ids configs posts w) (text : Text) :
    Wired ids configs posts (w.addDocument text).2 := by
  have hget : ∀ d, (w.addDocument text).2.surfaces.get d =
      if d = w.surfaces.slots.length then ⟨.ofText text, none, false⟩ else w.surfaces.get d :=
    w.surfaces.get_push _
  refine ⟨h.phase_eq, h.epochs_eq, h.endpoints_eq, h.party, ?_, ?_⟩
  · intro d
    rw [hget]
    split
    · exact ⟨rfl, rfl⟩
    · exact h.surface d
  · intro d l hl
    rw [World.document, hget] at hl
    split at hl
    · cases hl
    · exact h.listening d l hl

theorem Wired.addDocuments {w : World} (h : Wired ids configs posts w) (texts : List Text) :
    Wired ids configs posts (texts.foldl (fun w text => (w.addDocument text).2) w) := by
  induction texts generalizing w with
  | nil => exact h
  | cons text texts ih => exact ih (h.addDocument text)

/-- The parties are idle at first, and there is nothing on the way. -/
theorem told_opening (hids : ids 0 ≠ ids 1) (configs : Fin 2 → Config) (texts : List Text) :
    Told ids configs (fun _ => .fresh) (Chronicle.opening ids configs texts) := by
  refine ⟨?_, ?_, fun p => ⟨fun _ => rfl, fun _ => rfl⟩, fun p h => absurd rfl h, fun p => rfl⟩
  · have hparties : Wired ids configs (fun _ => .fresh)
        ((World.empty.addParty (ids 0) (configs 0)).2.addParty (ids 1) (configs 1)).2 := by
      refine ⟨?_, ?_, ?_, ?_, fun d => ⟨rfl, rfl⟩, fun d l hl => nomatch hl⟩
      · intro p
        match p with
        | 0 | 1 => rfl
      · intro p
        match p with
        | 0 | 1 => rfl
      · simp [World.empty, World.addParty, World.addEndpoint, Network.create, Network.empty,
          Network.Endpoint.detachFrom, Table.push, Table.empty, Post.fresh, List.ofFn_succ, hids]
      · intro p
        match p with
        | 0 | 1 => exact ⟨rfl, rfl⟩
    exact hparties.addDocuments texts
  · exact fun p => ⟨trivial, fun l hl => (by cases hl), fun m hm => (by cases hm)⟩

/-- What holds at the start of a run and is kept by every call holds all along, and the notes
are about the world. -/
theorem Chronicle.Reachable.invariant {Permitted : Chronicle → Call → World → Prop}
    {P : (Fin 2 → Post) → Chronicle → Prop} (h : Reachable ids configs texts Permitted n)
    (hdistinct : Distinct ids configs) (hinit : P (fun _ => .fresh) (opening ids configs texts))
    (hstep : ∀ {n c w' p taken posts out posts'}, P posts n → Permitted n c w' →
      Episode ids configs n c w' p taken posts out posts' → P posts' (n.next c w')) :
    ∃ posts, Told ids configs posts n ∧ P posts n := by
  induction h with
  | init => exact ⟨_, told_opening hdistinct.ids_ne configs texts, hinit⟩
  | step _ hc hrun hpermitted ih =>
      obtain ⟨posts, htold, hP⟩ := ih
      obtain ⟨p, taken, out, posts', hepisode⟩ := htold.exists_episode hdistinct hc hrun
      exact ⟨posts', hepisode.told_next hdistinct, hstep hP hpermitted hepisode⟩

end PairEdit.Session
