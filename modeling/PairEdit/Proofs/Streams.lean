import PairEdit.Document.Reactive
import PairEdit.Proofs.Replay

/-!
# Streams of edits

A listener that keeps the edits it is called with can carry them out on a copy of the text.
Listeners may edit the document themselves when they are called, add others and remove
some.  An edit in reaction is told to all listeners before the next one hears of the edit
that it reacts to, so a listener hears of the later edit first when one in front of it makes
an edit, and then the copy goes wrong.

In all other cases it does not.  The listeners in front leave the text as it is, so when
the listener is called the text is the one after the edit, and from then on edits reach it
as they are made.
-/

namespace PairEdit

/-- The edit that the listener at a place was called with, if it was called. -/
def Occurrence.calledWith? (place : Nat) : Occurrence → Option Edit
  | .called i e _ => if i = place then some e else none
  | _ => none

/-- What happened did not call the listener at a place, and if a listener was added it
finds the text. -/
def Occurrence.Quiet (place : Nat) (text : Text) : Occurrence → Prop
  | .called i _ _ => i ≠ place
  | .added _ _ found => found = text
  | _ => True

/-- A listener registered before the one at place `k` made an edit. -/
def Occurrence.Disturbs (k : Nat) : Occurrence → Prop
  | .replaced i (.ok _) => i < k
  | _ => False

instance (k : Nat) (o : Occurrence) : Decidable (o.Disturbs k) :=
  match o with
  | .replaced i (.ok _) => inferInstanceAs (Decidable (i < k))
  | .replaced _ (.error _) | .called .. | .removed .. | .added .. =>
      inferInstanceAs (Decidable False)

/-- Listeners are called in two rounds. -/
theorem Document.notify_append_eq_ok_iff {κ σ : Type} {call : Edit → κ → σ → Except Fault σ}
    {e : Edit} {front back : List (Nat × κ)} {s s' : σ} :
    notify call e (front ++ back) s = .ok s' ↔
      ∃ middle, notify call e front s = .ok middle ∧ notify call e back middle = .ok s' := by
  induction front generalizing s with
  | nil => simp [notify]
  | cons l rest ih =>
      simp only [List.cons_append, notify, bind_eq_ok_iff, ih]
      grind

namespace Reactive

/-- The edits that the listener at a place was called with, oldest first. -/
def stream (place : Nat) (log : List Occurrence) : List Edit :=
  log.filterMap (Occurrence.calledWith? place)

/-- What happened between two states. -/
def since (s s' : Reactive) : List Occurrence := s'.log.drop s.log.length

/-- Do what a host asks for; it can ask for what a listener does. -/
def perform (s : Reactive) : Reaction → Except Fault Reactive
  | .remove id => .ok (s.unlisten id).2
  | .enlist tag script => .ok (s.listen ⟨tag, script⟩).2
  | .replace e => do
      let (_, s) ← s.replace e
      return s

/-- Do what a host asks for, one thing after another. -/
def run (s : Reactive) (requests : List Reaction) : Except Fault Reactive :=
  requests.foldlM perform s

/-- Put another text in place of the one there is. -/
def setText (s : Reactive) (text : Text) : Reactive :=
  { s with document := { s.document with text := text } }

/-- The listener at place `k` is registered; listeners are numbered from one. -/
def Hears (s : Reactive) (k : Nat) : Prop := (k + 1, k) ∈ s.document.listeners

instance (s : Reactive) (k : Nat) : Decidable (s.Hears k) :=
  inferInstanceAs (Decidable ((k + 1, k) ∈ s.document.listeners))

/-- What the listener at place `k` has to go on in the second state: the text it found, and
what happened since then.  It found the text of the first state if it was registered there,
and else the one at the time when it was added. -/
inductive Outset (s s' : Reactive) (k : Nat) : Text → List Occurrence → Prop
  | before (h : s.Hears k) : Outset s s' k s.document.text (s.since s')
  | meanwhile {front back : List Occurrence} {place : Nat} {text : Text}
      (h : s.since s' = front ++ .added place (k + 1) text :: back) : Outset s s' k text back

/-- No listener registered before the one at place `k` made an edit. -/
def Undisturbed (k : Nat) (history : List Occurrence) : Prop := ∀ o ∈ history, ¬ o.Disturbs k

instance (k : Nat) (history : List Occurrence) : Decidable (Undisturbed k history) :=
  inferInstanceAs (Decidable (∀ o ∈ history, ¬ o.Disturbs k))

/-- Listeners are numbered from one in the order of their registration. -/
structure Numbered (s : Reactive) : Prop where
  nextId : s.document.nextId = s.listeners.length + 1
  known : ∀ l ∈ s.document.listeners, l.1 = l.2 + 1 ∧ l.2 < s.listeners.length
  ordered : s.document.listeners.Pairwise fun a b => a.2 < b.2

variable {s s' s'' : Reactive} {k : Nat} {e : Edit}

@[simp]
theorem stream_nil (k : Nat) : stream k [] = [] := rfl

@[simp]
theorem stream_append (k : Nat) (front back : List Occurrence) :
    stream k (front ++ back) = stream k front ++ stream k back :=
  List.filterMap_append

theorem stream_cons_called (k : Nat) (e : Edit) (text : Text) (log : List Occurrence) :
    stream k (.called k e text :: log) = e :: stream k log := by
  simp [stream, Occurrence.calledWith?]

theorem stream_eq_nil_of_quiet {text : Text} {log : List Occurrence}
    (h : ∀ o ∈ log, o.Quiet k text) : stream k log = [] := by
  refine List.filterMap_eq_nil_iff.2 fun o ho => ?_
  cases o with
  | called i e found => exact if_neg (h _ ho)
  | removed | added | replaced => rfl

/-! ## What only grows -/

/-- The second state comes about from the first one. -/
structure Later (s s' : Reactive) : Prop where
  log : s.log <+: s'.log
  places : s.listeners.length ≤ s'.listeners.length
  numbered : s.Numbered → s'.Numbered
  /-- Who is not registered any more stays so. -/
  kept : s.Numbered → ∀ k < s.listeners.length, s'.Hears k → s.Hears k
  /-- Who is added comes last. -/
  added : s.Numbered → ∀ place id text, .added place id text ∈ s.since s' →
    s.listeners.length < id ∧ id ≤ s'.listeners.length

namespace Later

theorem log_eq (h : Later s s') : s'.log = s.log ++ s.since s' := by
  obtain ⟨new, hnew⟩ := h.log
  rw [since, ← hnew, List.drop_left]

theorem of_log_eq {new : List Occurrence} (h : s'.log = s.log ++ new) : s.since s' = new := by
  rw [since, h, List.drop_left]

/-- What happened between the first and the last state happened before or after the one
between. -/
theorem since_eq (h : Later s s') (h' : Later s' s'') :
    s.since s'' = s.since s' ++ s'.since s'' := by
  apply of_log_eq
  rw [← List.append_assoc, ← h.log_eq, ← h'.log_eq]

theorem trans (h : Later s s') (h' : Later s' s'') : Later s s'' where
  log := h.log.trans h'.log
  places := Nat.le_trans h.places h'.places
  numbered := h'.numbered ∘ h.numbered
  kept hs k hk hears :=
    h.kept hs k hk (h'.kept (h.numbered hs) k (Nat.lt_of_lt_of_le hk h.places) hears)
  added hs place id text hadded := by
    have hplaces := h.places
    have hplaces' := h'.places
    rw [h.since_eq h'] at hadded
    cases List.mem_append.1 hadded with
    | inl hfirst =>
        have := h.added hs place id text hfirst
        omega
    | inr hlast =>
        have := h'.added (h.numbered hs) place id text hlast
        omega

end Later

/-- A step that calls and adds nobody, with the listeners where they were. -/
theorem Later.of_eq (hlog : s.log <+: s'.log) (hplaces : s'.listeners.length = s.listeners.length)
    (hnext : s'.document.nextId = s.document.nextId)
    (hlisteners : s'.document.listeners.Sublist s.document.listeners)
    (hadded : ∀ place id text, .added place id text ∉ s.since s') : Later s s' where
  log := hlog
  places := Nat.le_of_eq hplaces.symm
  numbered hs :=
    { nextId := by rw [hnext, hplaces, hs.nextId]
      known := fun l hl => hplaces ▸ hs.known l (hlisteners.subset hl)
      ordered := hs.ordered.sublist hlisteners }
  kept _ _ _ hears := hlisteners.subset hears
  added _ place id text h := absurd h (hadded place id text)

theorem Numbered.lt_of_hears (h : s.Numbered) (hears : s.Hears k) : k < s.listeners.length :=
  (h.known _ hears).2

theorem since_self (s : Reactive) : s.since s = [] := List.drop_length

theorem since_record (s : Reactive) (o : Occurrence) : s.since (s.record o) = [o] :=
  Later.of_log_eq rfl

theorem Later.refl (s : Reactive) : Later s s :=
  .of_eq List.prefix_rfl rfl rfl (List.Sublist.refl _) fun _ _ _ => by simp [since_self]

theorem later_record (s : Reactive) (o : Occurrence)
    (h : ∀ place id text, o ≠ .added place id text) : Later s (s.record o) :=
  .of_eq (List.prefix_append ..) rfl rfl (List.Sublist.refl _) fun place id text hadded =>
    h place id text (List.mem_singleton.1 (since_record s o ▸ hadded)).symm

theorem later_unlisten (s : Reactive) (id : Nat) : Later s (s.unlisten id).2 :=
  .of_eq List.prefix_rfl rfl rfl List.filter_sublist fun _ _ _ => by
    simp [since, unlisten]

theorem later_setListener (s : Reactive) (place : Nat) (listener : Listener) :
    Later s (s.setListener place listener) :=
  .of_eq List.prefix_rfl List.length_set rfl (List.Sublist.refl _) fun _ _ _ => by
    simp [since, setListener]

theorem since_setText (s : Reactive) (text : Text) : s.since (s.setText text) = [] :=
  List.drop_length

theorem later_setText (s : Reactive) (text : Text) : Later s (s.setText text) :=
  .of_eq List.prefix_rfl rfl rfl (List.Sublist.refl _) fun _ _ _ => by
    simp [since_setText]

/-- Who is registered comes last. -/
theorem Later.of_listen {listener : Listener} {log : List Occurrence}
    (h : ∀ place id text, .added place id text ∈ log → id = s.document.nextId) :
    Later s { (s.listen listener).2 with log := s.log ++ log } where
  log := List.prefix_append ..
  places := by simp [listen]
  numbered hs :=
    { nextId := by simp [listen, Document.listen, hs.nextId]
      known := fun l hl => by
        obtain hold | rfl := by simpa [listen, Document.listen] using hl
        · have := hs.known l hold
          simp only [listen, List.length_append, List.length_singleton]
          omega
        · simp [listen, hs.nextId]
      ordered := List.pairwise_append.2 ⟨hs.ordered, List.pairwise_singleton .., fun l hl _ hnew =>
        List.mem_singleton.1 hnew ▸ (hs.known l hl).2⟩ }
  kept hs k hk hears := by
    obtain hold | hnew := List.mem_append.1 hears
    · exact hold
    · have hplace : k = s.listeners.length := congrArg Prod.snd (List.mem_singleton.1 hnew)
      omega
  added hs place id text hadded := by
    rw [Later.of_log_eq rfl] at hadded
    have hid := h place id text hadded
    have hnext := hs.nextId
    simp only [listen, List.length_append, List.length_singleton]
    omega

/-! ## What a listener replays -/

/-- From the first state to the second one, carrying out what it was called with brings the
listener at place `k` from the text it found to the text that the document has. -/
structure Keeps (k : Nat) (s s' : Reactive) : Prop extends Later s s' where
  replays : s.Numbered → ∀ {text history}, Outset s s' k text history → s'.Hears k →
    Undisturbed k history → Edit.applyAll (stream k history) text = .ok s'.document.text

/-- A listener has its outset before or after the state between. -/
theorem Outset.split {text : Text} {history : List Occurrence} (h : Later s s')
    (h' : Later s' s'') (hs : s.Numbered) (hout : Outset s s'' k text history) :
    (∃ first, Outset s s' k text first ∧ k < s'.listeners.length ∧
      history = first ++ s'.since s'') ∨ Outset s' s'' k text history := by
  cases hout with
  | before hears =>
      exact .inl ⟨_, .before hears, Nat.lt_of_lt_of_le (hs.lt_of_hears hears) h.places,
        h.since_eq h'⟩
  | @meanwhile front back place text hsince =>
      rw [h.since_eq h'] at hsince
      obtain ⟨middle, -, hmiddle⟩ | ⟨middle, hfront, hmiddle⟩ :=
        List.append_eq_append_iff.1 hsince
      · exact .inr (.meanwhile hmiddle)
      · cases middle with
        | nil =>
            have hlast : s'.since s'' = [] ++ .added place (k + 1) text :: history := hmiddle.symm
            exact .inr (.meanwhile hlast)
        | cons o first =>
            obtain ⟨rfl, rfl⟩ := List.cons.inj hmiddle
            refine .inl ⟨first, .meanwhile hfront, ?_, rfl⟩
            exact (h.added hs place (k + 1) text (by simp [hfront])).2

namespace Keeps

theorem trans (h : Keeps k s s') (h' : Keeps k s' s'') : Keeps k s s'' where
  toLater := h.toLater.trans h'.toLater
  replays hs {text history} hout hears hundisturbed := by
    have hs' := h.numbered hs
    obtain ⟨first, hfirst, hk, rfl⟩ | hlast := hout.split h.toLater h'.toLater hs
    · have hears' : s'.Hears k := h'.kept hs' k hk hears
      have hbefore := h.replays hs hfirst hears' fun o ho =>
        hundisturbed o (List.mem_append_left _ ho)
      have hafter := h'.replays hs' (.before hears') hears fun o ho =>
        hundisturbed o (List.mem_append_right _ ho)
      rw [stream_append]
      exact Edit.applyAll_append_eq_ok_iff.2 ⟨_, hbefore, hafter⟩
    · exact h'.replays hs' hlast hears hundisturbed

end Keeps

/-- The text stays, and the listener at place `k` is not called. -/
structure Rests (k : Nat) (s s' : Reactive) : Prop extends Later s s' where
  text_eq : s'.document.text = s.document.text
  quiet : ∀ o ∈ s.since s', o.Quiet k s.document.text

namespace Rests

theorem refl (k : Nat) (s : Reactive) : Rests k s s :=
  ⟨.refl s, rfl, by simp [since_self]⟩

theorem record (s : Reactive) (o : Occurrence)
    (hadded : ∀ place id text, o ≠ .added place id text)
    (hquiet : o.Quiet k s.document.text) : Rests k s (s.record o) :=
  ⟨later_record s o hadded, rfl, by simpa [since_record] using hquiet⟩

theorem unlisten (k : Nat) (s : Reactive) (id : Nat) : Rests k s (s.unlisten id).2 :=
  ⟨later_unlisten s id, rfl, by simp [since, Reactive.unlisten]⟩

theorem setListener (k : Nat) (s : Reactive) (place : Nat) (listener : Listener) :
    Rests k s (s.setListener place listener) :=
  ⟨later_setListener s place listener, rfl, by simp [since, Reactive.setListener]⟩

theorem listen (k : Nat) (s : Reactive) (listener : Listener) :
    Rests k s (s.listen listener).2 where
  toLater := by
    have h : Later s { (s.listen listener).2 with log := s.log ++ [] } := .of_listen (by simp)
    rw [List.append_nil] at h
    exact h
  text_eq := rfl
  quiet := by simp [since, Reactive.listen]

/-- Who is added finds the text as it is. -/
theorem enlist (k : Nat) (s : Reactive) (listener : Listener) (place : Nat) :
    Rests k s ((s.listen listener).2.record
      (.added place s.document.nextId s.document.text)) where
  toLater := .of_listen fun _ _ _ h => (Occurrence.added.inj (List.mem_singleton.1 h)).2.1
  text_eq := rfl
  quiet := by simp [since, Occurrence.Quiet, Reactive.record, Reactive.listen]

theorem stream_eq_nil (h : Rests k s s') : stream k (s.since s') = [] :=
  stream_eq_nil_of_quiet h.quiet

/-- There is nothing to carry out. -/
theorem keeps (h : Rests k s s') : Keeps k s s' where
  toLater := h.toLater
  replays _ {text history} hout _ _ := by
    cases hout with
    | before => rw [h.stream_eq_nil, h.text_eq, Edit.applyAll_nil]
    | @meanwhile front back place text hsince =>
        have hquiet := h.quiet
        rw [hsince] at hquiet
        have hfound : text = s.document.text := hquiet (.added place (k + 1) text) (by simp)
        rw [stream_eq_nil_of_quiet fun o ho => hquiet o (by simp [ho]), h.text_eq, hfound,
          Edit.applyAll_nil]

end Rests

/-! ## One call -/

/-- The listener at a place does something.  If it makes no edit, the text stays and the
listener at place `k` is not called. -/
structure Acts (k place : Nat) (s s' : Reactive) : Prop extends Keeps k s s' where
  idle : .replaced place (.ok ()) ∉ s.since s' →
    s'.document.text = s.document.text ∧ stream k (s.since s') = []

variable {place : Nat}

theorem Rests.acts (h : Rests k s s') (place : Nat) : Acts k place s s' :=
  ⟨h.keeps, fun _ => ⟨h.text_eq, h.stream_eq_nil⟩⟩

theorem Acts.trans (h : Acts k place s s') (h' : Acts k place s' s'') : Acts k place s s'' where
  toKeeps := h.toKeeps.trans h'.toKeeps
  idle hno := by
    rw [h.since_eq h'.toLater] at hno ⊢
    obtain ⟨htext, hstream⟩ := h.idle fun hmem => hno (List.mem_append_left _ hmem)
    obtain ⟨htext', hstream'⟩ := h'.idle fun hmem => hno (List.mem_append_right _ hmem)
    exact ⟨htext'.trans htext, by rw [stream_append, hstream, hstream', List.append_nil]⟩

/-- What is known of the edits that a listener makes. -/
structure Writes (k : Nat)
    (write : Edit → Reactive → Except Fault (Except DocumentError Unit × Reactive)) : Prop where
  keeps : ∀ {e s s' outcome}, write e s = .ok (outcome, s') → Keeps k s s'
  refused : ∀ {e s s' error}, write e s = .ok (.error error, s') → s' = s

namespace Writes

variable {write : Edit → Reactive → Except Fault (Except DocumentError Unit × Reactive)}

theorem react (h : Writes k write) {r : Reaction}
    (hreact : Reactive.react write place s r = .ok s') : Acts k place s s' := by
  cases r with
  | remove id =>
      cases hreact
      have hnoted : Rests k (s.unlisten id).2 _ :=
        .record _ (.removed place (s.unlisten id).1) (fun _ _ _ => nofun) trivial
      exact ((Rests.unlisten k s id).acts place).trans (hnoted.acts place)
  | enlist tag script =>
      cases hreact
      exact (Rests.enlist k s ⟨tag, script⟩ place).acts place
  | replace e =>
      obtain ⟨⟨outcome, s₁⟩, hwrite, hrecord⟩ := bind_eq_ok_iff.1 hreact
      cases hrecord
      have hnoted : Rests k s₁ _ :=
        .record s₁ (.replaced place outcome) (fun _ _ _ => nofun) trivial
      cases outcome with
      | error error =>
          obtain rfl := h.refused hwrite
          exact hnoted.acts place
      | ok =>
          refine ⟨(h.keeps hwrite).trans hnoted.keeps, fun hno => absurd ?_ hno⟩
          rw [(h.keeps hwrite).since_eq hnoted.toLater, since_record]
          exact List.mem_append_right _ (List.mem_singleton.2 rfl)

theorem reactions (h : Writes k write) {reactions : List Reaction}
    (hfold : reactions.foldlM (Reactive.react write place) s = .ok s') : Acts k place s s' := by
  induction reactions generalizing s with
  | nil =>
      cases hfold
      exact (Rests.refl k _).acts place
  | cons r rest ih =>
      obtain ⟨s₁, hreact, hrest⟩ := bind_eq_ok_iff.1 hfold
      exact (h.react hreact).trans (ih hrest)

/-- Who is called first learns of the edit, and then goes on from the text it finds. -/
theorem after_called (h : Writes k write) (hplace : place < s.listeners.length)
    (hcall : call write e place s = .ok s') :
    Acts k place (s.record (.called place e s.document.text)) s' := by
  simp only [call, List.getElem?_eq_getElem hplace] at hcall
  split at hcall
  · cases hcall
    exact (Rests.refl ..).acts place
  · exact ((Rests.setListener k _ place _).acts place).trans (h.reactions hcall)

theorem call_of_ne (h : Writes k write) (hne : place ≠ k)
    (hcall : call write e place s = .ok s') : Acts k place s s' := by
  obtain hlt | hge := Nat.lt_or_ge place s.listeners.length
  · have hcalled : Rests k s _ :=
      .record s (.called place e s.document.text) (fun _ _ _ => nofun) hne
    exact (hcalled.acts place).trans (h.after_called hlt hcall)
  · simp only [call, List.getElem?_eq_none hge] at hcall
    cases hcall
    exact (Rests.refl k _).acts place

theorem call_later (h : Writes k write) (hcall : call write e place s = .ok s') :
    Later s s' := by
  obtain hlt | hge := Nat.lt_or_ge place s.listeners.length
  · have hcalled : Later s _ := later_record s (.called place e s.document.text) fun _ _ _ => nofun
    exact hcalled.trans (h.after_called hlt hcall).toLater
  · simp only [call, List.getElem?_eq_none hge] at hcall
    cases hcall
    exact .refl _

/-! ## All calls of an edit -/

theorem notify_later (h : Writes k write) {listeners : List (Nat × Nat)}
    (hnotify : Document.notify (call write) e listeners s = .ok s') : Later s s' := by
  induction listeners generalizing s with
  | nil =>
      cases hnotify
      exact .refl _
  | cons l rest ih =>
      obtain ⟨s₁, hcall, hrest⟩ := bind_eq_ok_iff.1 hnotify
      exact (h.call_later hcall).trans (ih hrest)

theorem notify_of_ne (h : Writes k write) {listeners : List (Nat × Nat)}
    (hne : ∀ l ∈ listeners, l.2 ≠ k)
    (hnotify : Document.notify (call write) e listeners s = .ok s') : Keeps k s s' := by
  induction listeners generalizing s with
  | nil =>
      cases hnotify
      exact (Rests.refl k _).keeps
  | cons l rest ih =>
      obtain ⟨s₁, hcall, hrest⟩ := bind_eq_ok_iff.1 hnotify
      have hfirst := h.call_of_ne (hne l (List.mem_cons_self ..)) hcall
      exact hfirst.toKeeps.trans (ih (fun l hl => hne l (List.mem_cons_of_mem _ hl)) hrest)

/-- As long as the listeners in front make no edit, the text stays. -/
theorem notify_of_lt (h : Writes k write) {listeners : List (Nat × Nat)}
    (hlt : ∀ l ∈ listeners, l.2 < k)
    (hnotify : Document.notify (call write) e listeners s = .ok s')
    (hundisturbed : Undisturbed k (s.since s')) :
    s'.document.text = s.document.text ∧ stream k (s.since s') = [] := by
  induction listeners generalizing s with
  | nil =>
      cases hnotify
      exact ⟨rfl, by rw [since_self, stream_nil]⟩
  | cons l rest ih =>
      obtain ⟨s₁, hcall, hrest⟩ := bind_eq_ok_iff.1 hnotify
      have hl : l.2 < k := hlt l (List.mem_cons_self ..)
      have hrestlt : ∀ l ∈ rest, l.2 < k := fun l hl => hlt l (List.mem_cons_of_mem _ hl)
      have hfirst := h.call_of_ne (Nat.ne_of_lt hl) hcall
      have hlast := h.notify_of_ne (fun l hl => Nat.ne_of_lt (hrestlt l hl)) hrest
      rw [hfirst.since_eq hlast.toLater] at hundisturbed ⊢
      obtain ⟨htext, hstream⟩ := hfirst.idle fun hmem =>
        hundisturbed _ (List.mem_append_left _ hmem) hl
      obtain ⟨htext', hstream'⟩ := ih hrestlt hrest fun o ho =>
        hundisturbed o (List.mem_append_right _ ho)
      exact ⟨htext'.trans htext, by rw [stream_append, hstream, hstream', List.append_nil]⟩

/-- The edit comes first, and then what is done in reaction to it. -/
theorem notify_replays (h : Writes k write) (hs : s.Numbered) (hears : s.Hears k)
    (hnotify : Document.notify (call write) e s.document.listeners s = .ok s')
    (hears' : s'.Hears k) (hundisturbed : Undisturbed k (s.since s')) :
    ∃ later, stream k (s.since s') = e :: later ∧
      Edit.applyAll later s.document.text = .ok s'.document.text := by
  obtain ⟨front, back, hlisteners⟩ := List.append_of_mem hears
  have hordered := hs.ordered
  rw [hlisteners, List.pairwise_append, List.pairwise_cons] at hordered
  obtain ⟨-, ⟨hback, -⟩, hfront⟩ := hordered
  rw [hlisteners, Document.notify_append_eq_ok_iff] at hnotify
  obtain ⟨s₁, hnotify₁, hnotify'⟩ := hnotify
  obtain ⟨s₂, hcall, hnotify₂⟩ := bind_eq_ok_iff.1 hnotify'
  have hlater₁ : Later s s₁ := h.notify_later hnotify₁
  have hk₁ : k < s₁.listeners.length := Nat.lt_of_lt_of_le (hs.lt_of_hears hears) hlater₁.places
  -- From the moment at which the listener is called on.
  let called := s₁.record (.called k e s₁.document.text)
  have hcalled : Later s₁ called := later_record s₁ _ fun _ _ _ => nofun
  have hkeeps : Keeps k called s' :=
    (h.after_called hk₁ hcall).toKeeps.trans
      (h.notify_of_ne (fun l hl => (Nat.ne_of_lt (hback l hl)).symm) hnotify₂)
  have hsince : s.since s' =
      s.since s₁ ++ .called k e s₁.document.text :: called.since s' := by
    rw [hlater₁.since_eq (hcalled.trans hkeeps.toLater), hcalled.since_eq hkeeps.toLater,
      since_record, List.singleton_append]
  rw [hsince] at hundisturbed ⊢
  obtain ⟨htext, hstream⟩ := h.notify_of_lt (fun l hl => hfront l hl _ (List.mem_cons_self ..))
    hnotify₁ fun o ho => hundisturbed o (List.mem_append_left _ ho)
  refine ⟨stream k (called.since s'), ?_, ?_⟩
  · rw [stream_append, hstream, stream_cons_called, List.nil_append]
  · have hnumbered : called.Numbered := hcalled.numbered (hlater₁.numbered hs)
    have hearsCalled : called.Hears k := hkeeps.kept hnumbered k hk₁ hears'
    have hreplays := hkeeps.replays hnumbered (.before hearsCalled) hears' fun o ho =>
      hundisturbed o (List.mem_append_right _ (List.mem_cons_of_mem _ ho))
    rw [← htext]
    exact hreplays

end Writes

/-! ## Edits -/

section Edits

variable {write : Edit → Reactive → Except Fault (Except DocumentError Unit × Reactive)}
variable {outcome : Except DocumentError Unit}

/-- A refused edit changes nothing; any other one is told to all who are registered. -/
theorem replaceIn_cases (h : Document.replaceIn site (call write) e s = .ok (outcome, s')) :
    (∃ error, outcome = .error error ∧ s' = s) ∨
      ∃ text, e.apply s.document.text = .ok text ∧ outcome = .ok () ∧
        Document.notify (call write) e s.document.listeners (s.setText text) = .ok s' := by
  simp only [Document.replaceIn] at h
  split at h
  · cases h
    exact .inl ⟨_, rfl, rfl⟩
  · next text happly =>
      obtain ⟨s₁, hnotify, hresult⟩ := bind_eq_ok_iff.1 h
      cases hresult
      exact .inr ⟨text, happly, rfl, hnotify⟩

theorem Writes.replaceIn_keeps (h : Writes k write)
    (hreplace : Document.replaceIn site (call write) e s = .ok (outcome, s')) : Keeps k s s' := by
  obtain ⟨_, -, rfl⟩ | ⟨text, happly, -, hnotify⟩ := replaceIn_cases hreplace
  · exact (Rests.refl k _).keeps
  · have hset := later_setText s text
    have hlater := h.notify_later hnotify
    have hsince : s.since s' = (s.setText text).since s' := by
      rw [hset.since_eq hlater, since_setText, List.nil_append]
    refine ⟨hset.trans hlater, fun hs {found history} hout hears hundisturbed => ?_⟩
    cases hout with
    | before hbefore =>
        rw [hsince] at hundisturbed ⊢
        obtain ⟨later, hstream, hrest⟩ :=
          h.notify_replays (hset.numbered hs) hbefore hnotify hears hundisturbed
        rw [hstream]
        exact Edit.applyAll_cons_eq_ok_iff.2 ⟨text, happly, hrest⟩
    | @meanwhile front back place found hadded =>
        -- A listener that is added meanwhile is not among those to be called.
        have hnew := (hset.trans hlater).added hs place (k + 1) found (by simp [hadded])
        have hne : ∀ l ∈ s.document.listeners, l.2 ≠ k := fun l hl => by
          have hl' := hs.known l hl
          omega
        exact (h.notify_of_ne hne hnotify).replays (hset.numbered hs)
          (.meanwhile (hsince ▸ hadded)) hears hundisturbed

/-- Edits with reactions to them are again such as reactions may make. -/
theorem Writes.replaceIn (h : Writes k write) :
    Writes k (Document.replaceIn site (call write)) where
  keeps := h.replaceIn_keeps
  refused hreplace := by
    obtain ⟨_, -, rfl⟩ | ⟨_, -, houtcome, -⟩ := replaceIn_cases hreplace
    · rfl
    · cases houtcome

end Edits

theorem writes_replaceWithin (k depth : Nat) : Writes k (replaceWithin depth) := by
  induction depth with
  | zero => exact Writes.replaceIn ⟨nofun, nofun⟩
  | succ depth ih => exact ih.replaceIn

theorem keeps_perform {request : Reaction} (h : s.perform request = .ok s') : Keeps k s s' := by
  cases request with
  | remove id =>
      cases h
      exact (Rests.unlisten k s id).keeps
  | enlist tag script =>
      cases h
      exact (Rests.listen k s ⟨tag, script⟩).keeps
  | replace e =>
      obtain ⟨⟨outcome, s₁⟩, hreplace, hresult⟩ := bind_eq_ok_iff.1 h
      cases hresult
      exact (writes_replaceWithin k s.pending).keeps hreplace

theorem keeps_run {requests : List Reaction} (h : s.run requests = .ok s') : Keeps k s s' := by
  induction requests generalizing s with
  | nil =>
      cases h
      exact (Rests.refl k _).keeps
  | cons request rest ih =>
      obtain ⟨s₁, hperform, hrest⟩ := bind_eq_ok_iff.1 h
      exact (keeps_perform hperform).trans (ih hrest)

theorem numbered_ofText (text : Text) : (ofText text).Numbered :=
  ⟨rfl, nofun, .nil⟩

/-! ## Edits end -/

/-- Edits end when they may be nested as deep as there are calls to come, and no more calls
are to come afterwards. -/
def Ends (depth : Nat)
    (write : Edit → Reactive → Except Fault (Except DocumentError Unit × Reactive)) : Prop :=
  ∀ e s, s.pending < depth → ∃ outcome s', write e s = .ok (outcome, s') ∧ s'.pending ≤ s.pending

theorem scriptTurns_append (script script' : List (List Reaction)) :
    scriptTurns (script ++ script') = scriptTurns script + scriptTurns script' := by
  induction script with
  | nil => exact (Nat.zero_add _).symm
  | cons now later ih =>
      rw [List.cons_append, scriptTurns, scriptTurns, ih]
      omega

theorem pending_setText (s : Reactive) (text : Text) : (s.setText text).pending = s.pending := rfl

theorem pending_listen (s : Reactive) (listener : Listener) :
    (s.listen listener).2.pending = s.pending + scriptTurns listener.script := by
  rw [pending, listen, List.flatMap_append, scriptTurns_append, List.flatMap_singleton]
  rfl

/-- What a listener has left to react to is counted anew. -/
theorem pending_setListener {place : Nat} {listener : Listener} (other : Listener)
    (h : s.listeners[place]? = some listener) :
    (s.setListener place other).pending + scriptTurns listener.script =
      s.pending + scriptTurns other.script := by
  obtain ⟨hlt, rfl⟩ := List.getElem?_eq_some_iff.1 h
  have hpending : s.pending = scriptTurns ((s.listeners.take place ++
      s.listeners[place] :: s.listeners.drop (place + 1)).flatMap Listener.script) := by
    rw [← List.drop_eq_getElem_cons hlt, List.take_append_drop, pending]
  rw [hpending, pending, setListener, List.set_eq_take_append_cons_drop, if_pos hlt]
  simp only [List.flatMap_append, List.flatMap_cons, scriptTurns_append]
  omega

section Ending

variable {write : Edit → Reactive → Except Fault (Except DocumentError Unit × Reactive)}
variable {depth : Nat}

theorem Ends.react (h : Ends depth write) (place : Nat) (s : Reactive) (r : Reaction)
    (hdepth : s.pending < depth) :
    ∃ s', react write place s r = .ok s' ∧ s'.pending ≤ s.pending + r.turns := by
  cases r with
  | remove id => exact ⟨_, rfl, Nat.le_add_right ..⟩
  | enlist tag script =>
      exact ⟨_, rfl, Nat.le_of_eq (pending_listen s ⟨tag, script⟩)⟩
  | replace e =>
      obtain ⟨outcome, s₁, hwrite, hpending⟩ := h e s hdepth
      refine ⟨s₁.record (.replaced place outcome), bind_eq_ok_iff.2 ⟨_, hwrite, rfl⟩, ?_⟩
      exact Nat.le_add_right_of_le hpending

theorem Ends.reactions (h : Ends depth write) (place : Nat) (s : Reactive)
    (reactions : List Reaction)
    (hdepth : s.pending + turnsWithin reactions < depth) :
    ∃ s', reactions.foldlM (Reactive.react write place) s = .ok s' ∧
      s'.pending ≤ s.pending + turnsWithin reactions := by
  induction reactions generalizing s with
  | nil => exact ⟨s, rfl, Nat.le_refl _⟩
  | cons r rest ih =>
      rw [turnsWithin] at hdepth ⊢
      obtain ⟨s₁, hreact, hpending⟩ := h.react place s r (by omega)
      obtain ⟨s', hrest, hpending'⟩ := ih s₁ (by omega)
      exact ⟨s', bind_eq_ok_iff.2 ⟨s₁, hreact, hrest⟩, by omega⟩

/-- A call uses up an entry of a script, so there is one less for the edits in reaction. -/
theorem Ends.call (h : Ends depth write) (e : Edit) (place : Nat) (s : Reactive)
    (hdepth : s.pending ≤ depth) :
    ∃ s', call write e place s = .ok s' ∧ s'.pending ≤ s.pending := by
  cases hlistener : s.listeners[place]? with
  | none => exact ⟨s, by simp only [Reactive.call, hlistener], Nat.le_refl _⟩
  | some listener =>
      let called := s.record (.called place e s.document.text)
      cases hscript : listener.script with
      | nil =>
          exact ⟨called, by simp only [Reactive.call, hlistener, hscript, called], Nat.le_refl _⟩
      | cons now later =>
          let next := called.setListener place ⟨listener.tag, later⟩
          have hpending : next.pending + (turnsWithin now + scriptTurns later + 1) =
              s.pending + scriptTurns later := by
            have hcalled : called.listeners[place]? = some listener := hlistener
            rw [← scriptTurns, ← hscript]
            exact pending_setListener ⟨listener.tag, later⟩ hcalled
          obtain ⟨s', hreactions, hpending'⟩ := h.reactions place next now (by omega)
          exact ⟨s', by simpa only [Reactive.call, hlistener, hscript] using hreactions, by omega⟩

theorem Ends.notify (h : Ends depth write) (e : Edit) (listeners : List (Nat × Nat))
    (s : Reactive) (hdepth : s.pending ≤ depth) :
    ∃ s', Document.notify (Reactive.call write) e listeners s = .ok s' ∧
      s'.pending ≤ s.pending := by
  induction listeners generalizing s with
  | nil => exact ⟨s, rfl, Nat.le_refl _⟩
  | cons l rest ih =>
      obtain ⟨s₁, hcall, hpending⟩ := h.call e l.2 s hdepth
      obtain ⟨s', hrest, hpending'⟩ := ih s₁ (Nat.le_trans hpending hdepth)
      exact ⟨s', bind_eq_ok_iff.2 ⟨s₁, hcall, hrest⟩, Nat.le_trans hpending' hpending⟩

theorem Ends.replaceIn (h : Ends depth write) :
    Ends (depth + 1) (Document.replaceIn site (Reactive.call write)) := fun e s hdepth => by
  cases happly : e.apply s.document.text with
  | error reason =>
      exact ⟨.error (.invalidEdit reason), s, by simp only [Document.replaceIn, site, happly],
        Nat.le_refl _⟩
  | ok text =>
      obtain ⟨s', hnotify, hpending⟩ := h.notify e s.document.listeners (s.setText text)
        (by rw [pending_setText]; omega)
      refine ⟨.ok (), s', ?_, hpending⟩
      simp only [Document.replaceIn, site, happly]
      exact bind_eq_ok_iff.2 ⟨s', hnotify, rfl⟩

end Ending

theorem ends_replaceWithin (depth : Nat) : Ends (depth + 1) (replaceWithin depth) := by
  induction depth with
  | zero => exact Ends.replaceIn fun _ s h => absurd h (Nat.not_lt_zero s.pending)
  | succ depth ih => exact ih.replaceIn

theorem exists_run_eq_ok (s : Reactive) (requests : List Reaction) :
    ∃ s', s.run requests = .ok s' := by
  induction requests generalizing s with
  | nil => exact ⟨s, rfl⟩
  | cons request rest ih =>
      have hperform : ∃ s₁, s.perform request = .ok s₁ := by
        cases request with
        | remove id => exact ⟨_, rfl⟩
        | enlist tag script => exact ⟨_, rfl⟩
        | replace e =>
            obtain ⟨_, s₁, hreplace, -⟩ :=
              ends_replaceWithin s.pending e s (Nat.lt_succ_self _)
            exact ⟨s₁, bind_eq_ok_iff.2 ⟨_, hreplace, rfl⟩⟩
      obtain ⟨s₁, hs₁⟩ := hperform
      obtain ⟨s', hs'⟩ := ih s₁
      exact ⟨s', bind_eq_ok_iff.2 ⟨s₁, hs₁, hs'⟩⟩

/-! ## The text of a listener -/

/-- Whatever a host and the listeners do, every listener that no listener in front of it
disturbs replays the text, from its registration to the end. -/
theorem stream_replays {text : Text} {before : List Reaction} {s : Reactive}
    (hs : (ofText text).run before = .ok s) (after : List Reaction) :
    ∃ s', s.run after = .ok s' ∧ ∀ {k found history}, Outset s s' k found history → s'.Hears k →
      Undisturbed k history →
        Edit.applyAll (stream k history) found = .ok s'.document.text := by
  obtain ⟨s', hs'⟩ := exists_run_eq_ok s after
  refine ⟨s', hs', fun {k found history} hout hears hundisturbed => ?_⟩
  have hnumbered : s.Numbered := (keeps_run (k := k) hs).numbered (numbered_ofText text)
  exact (keeps_run hs').replays hnumbered hout hears hundisturbed

/-- The listener in front adds one, removes it and is refused an edit; the second one and the
one behind it edit.  The second one replays all that. -/
theorem stream_replays_nested :
    ∃ s s', (ofText "abc".toList).run
        [.enlist "front" [[.add "new", .replace ⟨9, 0, "Z".toList⟩, .remove 4]],
          .enlist "copy" [[.replace ⟨0, 0, "Y".toList⟩]],
          .enlist "behind" [[.replace ⟨1, 1, []⟩]]] = .ok s ∧
      s.run [.replace ⟨3, 0, "X".toList⟩, .replace ⟨9, 1, []⟩] = .ok s' ∧
      stream 1 (s.since s') = [⟨3, 0, "X".toList⟩, ⟨0, 0, "Y".toList⟩, ⟨1, 1, []⟩] ∧
      Edit.applyAll (stream 1 (s.since s')) s.document.text = .ok s'.document.text := by
  have hrun : ∃ s ∈ ((ofText "abc".toList).run
        [.enlist "front" [[.add "new", .replace ⟨9, 0, "Z".toList⟩, .remove 4]],
          .enlist "copy" [[.replace ⟨0, 0, "Y".toList⟩]],
          .enlist "behind" [[.replace ⟨1, 1, []⟩]]]).toOption,
      ∃ s' ∈ (s.run [.replace ⟨3, 0, "X".toList⟩, .replace ⟨9, 1, []⟩]).toOption,
        s.Hears 1 ∧ s'.Hears 1 ∧ Undisturbed 1 (s.since s') ∧
        stream 1 (s.since s') = [⟨3, 0, "X".toList⟩, ⟨0, 0, "Y".toList⟩, ⟨1, 1, []⟩] := by
    decide +kernel
  obtain ⟨s, hs, s', hs', hears, hears', hundisturbed, hstream⟩ := hrun
  obtain ⟨final, hfinal, hreplays⟩ := stream_replays (eq_ok_of_mem_toOption hs)
    [.replace ⟨3, 0, "X".toList⟩, .replace ⟨9, 1, []⟩]
  obtain rfl : final = s' := Except.ok.inj (hfinal.symm.trans (eq_ok_of_mem_toOption hs'))
  exact ⟨s, final, eq_ok_of_mem_toOption hs, hfinal, hstream,
    hreplays (.before hears) hears' hundisturbed⟩

/-- The listener in front edits in reaction, and the one behind hears of that edit first. -/
theorem stream_of_listener_behind :
    ∃ s s', (ofText "abc".toList).run
        [.enlist "front" [[.replace ⟨0, 0, "Y".toList⟩]], .enlist "copy" []] = .ok s ∧
      s.run [.replace ⟨3, 0, "X".toList⟩] = .ok s' ∧ s.Hears 1 ∧ s'.Hears 1 ∧
      s'.document.text = "YabcX".toList ∧
      stream 1 (s.since s') = [⟨0, 0, "Y".toList⟩, ⟨3, 0, "X".toList⟩] ∧
      Edit.applyAll (stream 1 (s.since s')) s.document.text = .ok "YabXc".toList := by
  refine ⟨_, _, rfl, rfl, ?_, ?_, rfl, rfl, rfl⟩ <;> decide

end Reactive

end PairEdit
