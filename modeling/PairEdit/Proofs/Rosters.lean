import PairEdit.Document

/-!
# Who is told of an edit

The list of those who listen to a document may change while they are told of an edit, since
whoever is called may add listeners and remove some, itself among them.  It makes no difference
to who is called: these are the listeners that were there when the text changed, each one once,
in the order of their registration, and they all find the new text.

A roster is a document with a record of all that was done to its list of listeners, by the host
or by a listener, and of all calls.  From the record alone it can be told who is registered, and
so what an attempt to remove somebody has to answer.
-/

namespace PairEdit.Document

/-- What a listener does when it is called: it adds and removes listeners, and goes on according
to what it is told. -/
inductive ListenerProgram (κ : Type) where
  | done
  | add (listener : κ) (next : Nat → ListenerProgram κ)
  | remove (id : Nat) (next : Bool → ListenerProgram κ)

/-- What is put on record. -/
inductive RecordEntry (κ : Type) where
  | added (id : Nat) (listener : κ)
  | removed (id : Nat) (wasThere : Bool)
  /-- A listener was called; the text is the one it found. -/
  | called (listener : κ) (edit : Edit) (text : Text)

/-- What a host does with a document. -/
inductive Request (κ : Type) where
  | add (listener : κ)
  | remove (id : Nat)
  | replace (edit : Edit)

/-- A document, and its record, with the latest entry first. -/
structure Roster (κ : Type) where
  document : Document κ
  record : List (RecordEntry κ)

/-- What each listener does in a call.  It may depend on all that happened before. -/
abbrev Behaviour (κ : Type) := List (RecordEntry κ) → Edit → κ → ListenerProgram κ

namespace Roster

variable {κ : Type}

/-- A document that nobody listens to yet. -/
def ofText (text : Text) : Roster κ := ⟨.ofText text, []⟩

/-- Where the document is. -/
def site : Site (Roster κ) κ where
  get := document
  put d s := { s with document := d }

/-- Put one more entry on record. -/
def note (s : Roster κ) (entry : RecordEntry κ) : Roster κ := { s with record := entry :: s.record }

/-- Register a listener; the result names it. -/
def listen (s : Roster κ) (listener : κ) : Nat × Roster κ :=
  let (id, d) := s.document.listen listener
  (id, { s with document := d }.note (.added id listener))

/-- Remove a listener; the result tells whether it was registered. -/
def unlisten (s : Roster κ) (id : Nat) : Bool × Roster κ :=
  let (wasThere, d) := s.document.unlisten id
  (wasThere, { s with document := d }.note (.removed id wasThere))

/-- Run a program to its end. -/
def runProgram : ListenerProgram κ → Roster κ → Roster κ
  | .done, s => s
  | .add listener next, s =>
      let (id, s) := s.listen listener
      runProgram (next id) s
  | .remove id next, s =>
      let (wasThere, s) := s.unlisten id
      runProgram (next wasThere) s

/-- Call a listener. -/
def call (behaviour : Behaviour κ) (e : Edit) (listener : κ) (s : Roster κ) :
    Except Fault (Roster κ) :=
  .ok (runProgram (behaviour s.record e listener) (s.note (.called listener e s.document.text)))

/-- Edit the document. -/
def replace (behaviour : Behaviour κ) (e : Edit) (s : Roster κ) :
    Except Fault (Except DocumentError Unit × Roster κ) :=
  Document.replaceIn site (call behaviour) e s

/-- Do what a host asks for. -/
def perform (behaviour : Behaviour κ) (s : Roster κ) : Request κ → Except Fault (Roster κ)
  | .add listener => .ok (s.listen listener).2
  | .remove id => .ok (s.unlisten id).2
  | .replace e => do
      let (_, s) ← s.replace behaviour e
      return s

/-- Do what a host asks for, one thing after another. -/
def run (behaviour : Behaviour κ) (s : Roster κ) (requests : List (Request κ)) :
    Except Fault (Roster κ) :=
  requests.foldlM (perform behaviour) s

/-! ## What the record says -/

/-- All listeners that were ever added, in the order in which they were. -/
def added : List (RecordEntry κ) → List (Nat × κ)
  | [] => []
  | .added id listener :: earlier => added earlier ++ [(id, listener)]
  | .removed .. :: earlier => added earlier
  | .called .. :: earlier => added earlier

/-- The numbers of all listeners that were removed. -/
def removed : List (RecordEntry κ) → List Nat
  | [] => []
  | .removed id true :: earlier => id :: removed earlier
  | .removed _ false :: earlier => removed earlier
  | .added .. :: earlier => removed earlier
  | .called .. :: earlier => removed earlier

/-- The listeners that were called, in the order of the calls, and what each of them was told and
found. -/
def calls : List (RecordEntry κ) → List (κ × Edit × Text)
  | [] => []
  | .called listener e text :: earlier => calls earlier ++ [(listener, e, text)]
  | .added .. :: earlier => calls earlier
  | .removed .. :: earlier => calls earlier

/-- A listener with this number was added, and was not removed since. -/
def Registered (record : List (RecordEntry κ)) (id : Nat) : Prop :=
  (∃ listener, (id, listener) ∈ added record) ∧ id ∉ removed record

/-- Whoever tried to remove a listener was told whether it was registered. -/
def Truthful (record : List (RecordEntry κ)) : Prop :=
  ∀ later earlier id wasThere, record = later ++ .removed id wasThere :: earlier →
    (wasThere = true ↔ Registered earlier id)

/-- The document and its record agree. -/
structure Orderly (s : Roster κ) : Prop where
  /-- No number is given twice. -/
  ascending : (added s.record).Pairwise fun a b => a.1 < b.1
  /-- Who was added and not removed is registered, in the order of adding. -/
  listeners : s.document.listeners = (added s.record).filter fun l => l.1 ∉ removed s.record
  truthful : Truthful s.record
  /-- The next number is behind all those that were given. -/
  below : ∀ l ∈ added s.record, l.1 < s.document.nextId
  known : ∀ id ∈ removed s.record, ∃ listener, (id, listener) ∈ added s.record

variable {s s' s'' : Roster κ}

@[simp]
theorem calls_append (later earlier : List (RecordEntry κ)) :
    calls (later ++ earlier) = calls earlier ++ calls later := by
  induction later with
  | nil => exact (List.append_nil _).symm
  | cons entry later ih =>
      cases entry with
      | called => simp only [List.cons_append, calls, ih, List.append_assoc]
      | added | removed => exact ih

theorem Truthful.cons {record : List (RecordEntry κ)} (h : Truthful record) {entry : RecordEntry κ}
    (hentry : ∀ id wasThere, entry = .removed id wasThere →
      (wasThere = true ↔ Registered record id)) : Truthful (entry :: record) := by
  intro later earlier id wasThere hrecord
  cases later with
  | nil =>
      obtain ⟨hhead, rfl⟩ := List.cons.inj hrecord
      exact hentry id wasThere hhead
  | cons first later => exact h later earlier id wasThere (List.cons.inj hrecord).2

namespace Orderly

theorem ofText (text : Text) : (ofText text : Roster κ).Orderly where
  ascending := .nil
  listeners := rfl
  truthful later earlier id wasThere h := by simp [Roster.ofText] at h
  below := nofun
  known := nofun

/-- What is noted without a change of the list has to be true. -/
theorem note_called (h : s.Orderly) (listener : κ) (e : Edit) (text : Text) :
    (s.note (.called listener e text)).Orderly where
  ascending := h.ascending
  listeners := h.listeners
  truthful := h.truthful.cons nofun
  below := h.below
  known := h.known

/-- Another text leaves the list as it is. -/
theorem setText (h : s.Orderly) (text : Text) :
    ({ s with document := { s.document with text := text } } : Roster κ).Orderly :=
  ⟨h.ascending, h.listeners, h.truthful, h.below, h.known⟩

/-- The next number was not given before. -/
theorem listen (h : s.Orderly) (listener : κ) : (s.listen listener).2.Orderly where
  ascending := List.pairwise_append.2 ⟨h.ascending, List.pairwise_singleton .., fun l hl _ hnew =>
    List.mem_singleton.1 hnew ▸ h.below l hl⟩
  listeners := by
    have hnew : s.document.nextId ∉ removed s.record := fun hremoved => by
      obtain ⟨k, hk⟩ := h.known _ hremoved
      exact Nat.lt_irrefl _ (h.below _ hk)
    simp only [Roster.listen, Document.listen, note, added, removed, List.filter_append]
    rw [← h.listeners, List.filter_cons_of_pos (by simpa using hnew), List.filter_nil]
  truthful := h.truthful.cons nofun
  below l hl := by
    obtain hold | hnew := List.mem_append.1 hl
    · exact Nat.lt_succ_of_lt (h.below l hold)
    · rw [List.mem_singleton.1 hnew]
      exact Nat.lt_succ_self _
  known id hid := by
    obtain ⟨k, hk⟩ := h.known id hid
    exact ⟨k, List.mem_append_left _ hk⟩

/-- The answer to an attempt to remove a listener is whether it was registered. -/
theorem unlisten_fst (h : s.Orderly) (id : Nat) :
    (s.unlisten id).1 = true ↔ Registered s.record id := by
  simp only [Roster.unlisten, Document.unlisten, h.listeners, List.any_eq_true, List.mem_filter,
    Registered]
  constructor
  · rintro ⟨⟨i, k⟩, ⟨hadded, hkept⟩, heq⟩
    obtain rfl : i = id := by simpa using heq
    exact ⟨⟨k, hadded⟩, by simpa using hkept⟩
  · rintro ⟨⟨k, hadded⟩, hkept⟩
    exact ⟨(id, k), ⟨hadded, by simpa using hkept⟩, by simp⟩

theorem unlisten (h : s.Orderly) (id : Nat) : (s.unlisten id).2.Orderly := by
  have hanswer := h.unlisten_fst id
  have hrecord : (s.unlisten id).2.record = .removed id (s.unlisten id).1 :: s.record := rfl
  have hadded : added (s.unlisten id).2.record = added s.record := rfl
  have hdocument : (s.unlisten id).2.document.listeners =
      s.document.listeners.filter fun l => l.1 != id := rfl
  have hremoved : ∀ i, i ∈ removed (s.unlisten id).2.record ↔
      (i = id ∧ Registered s.record id) ∨ i ∈ removed s.record := by
    intro i
    rw [hrecord]
    cases hfst : (s.unlisten id).1 with
    | true => simp [removed, hanswer.1 hfst]
    | false =>
        have hnot : ¬ Registered s.record id := fun hreg => by
          rw [hanswer.2 hreg] at hfst
          cases hfst
        simp [removed, hnot]
  refine ⟨h.ascending, ?_, h.truthful.cons fun i wasThere hentry => ?_, h.below, fun i hi => ?_⟩
  · rw [hdocument, h.listeners, hadded, List.filter_filter]
    refine List.filter_congr fun l hl => ?_
    by_cases heq : l.1 = id
    · have hgiven : ∃ k, (id, k) ∈ added s.record := ⟨l.2, heq ▸ hl⟩
      have hgone : id ∈ removed (s.unlisten id).2.record :=
        (hremoved id).2 (Classical.or_iff_not_imp_right.2 fun hkept => ⟨rfl, hgiven, hkept⟩)
      simp [heq, hgone]
    · simp [hremoved l.1, heq]
  · cases hentry
    exact hanswer
  · rw [hadded]
    obtain ⟨rfl, hgiven, -⟩ | hold := (hremoved i).1 hi
    · exact hgiven
    · exact h.known i hold

end Orderly

/-! ## Who is called -/

/-- The list of listeners may be another one, but the text is the same, and these were called. -/
structure Told (new : List (κ × Edit × Text)) (s s' : Roster κ) : Prop where
  text : s'.document.text = s.document.text
  record : ∃ later, s'.record = later ++ s.record ∧ calls later = new

namespace Told

theorem refl (s : Roster κ) : Told [] s s := ⟨rfl, [], rfl, rfl⟩

theorem trans {first second : List (κ × Edit × Text)} (h : Told first s s')
    (h' : Told second s' s'') : Told (first ++ second) s s'' := by
  obtain ⟨later, hrecord, rfl⟩ := h.record
  obtain ⟨later', hrecord', rfl⟩ := h'.record
  refine ⟨h'.text.trans h.text, later' ++ later, ?_, calls_append ..⟩
  rw [hrecord', hrecord, List.append_assoc]

end Told

/-- A program changes the list of listeners and calls nobody. -/
theorem runProgram_spec (program : ListenerProgram κ) (h : s.Orderly) :
    (runProgram program s).Orderly ∧ Told [] s (runProgram program s) := by
  induction program generalizing s with
  | done => exact ⟨h, .refl s⟩
  | add listener next ih =>
      have hadded : Told [] s (s.listen listener).2 := ⟨rfl, [.added _ listener], rfl, rfl⟩
      obtain ⟨horderly, htold⟩ := ih (s.listen listener).1 (h.listen listener)
      exact ⟨horderly, hadded.trans htold⟩
  | remove id next ih =>
      have hremoved : Told [] s (s.unlisten id).2 := ⟨rfl, [.removed id _], rfl, rfl⟩
      obtain ⟨horderly, htold⟩ := ih (s.unlisten id).1 (h.unlisten id)
      exact ⟨horderly, hremoved.trans htold⟩

/-- Listeners are called one after another, whatever each of them does to the list. -/
theorem notify_spec (behaviour : Behaviour κ) (e : Edit) (listeners : List (Nat × κ))
    (h : s.Orderly) :
    ∃ s', notify (call behaviour) e listeners s = .ok s' ∧ s'.Orderly ∧
      Told (listeners.map fun l => (l.2, e, s.document.text)) s s' := by
  induction listeners generalizing s with
  | nil => exact ⟨s, rfl, h, .refl s⟩
  | cons l rest ih =>
      let called := s.note (.called l.2 e s.document.text)
      have hcalled : Told [(l.2, e, s.document.text)] s called := ⟨rfl, [_], rfl, rfl⟩
      obtain ⟨horderly, htold⟩ :=
        runProgram_spec (behaviour s.record e l.2) (h.note_called l.2 e s.document.text)
      have hfirst := hcalled.trans htold
      obtain ⟨s', hnotify, horderly', htold'⟩ := ih horderly
      rw [hfirst.text] at htold'
      exact ⟨s', hnotify, horderly', hfirst.trans htold'⟩

/-- A refused edit changes nothing and calls nobody.  Any other one calls those who were
registered. -/
theorem replace_spec (behaviour : Behaviour κ) (e : Edit) (h : s.Orderly) :
    match e.apply s.document.text with
    | .error reason => s.replace behaviour e = .ok (.error (.invalidEdit reason), s)
    | .ok text => ∃ s', s.replace behaviour e = .ok (.ok (), s') ∧ s'.Orderly ∧
        s'.document.text = text ∧ ∃ later, s'.record = later ++ s.record ∧
          calls later = s.document.listeners.map fun l => (l.2, e, text) := by
  cases happly : e.apply s.document.text with
  | error reason => simp only [replace, replaceIn, site, happly]
  | ok text =>
      obtain ⟨s', hnotify, horderly, htold⟩ :=
        notify_spec behaviour e s.document.listeners (h.setText text)
      refine ⟨s', ?_, horderly, htold.text, htold.record⟩
      simp only [replace, replaceIn, site, happly]
      exact bind_eq_ok_iff.2 ⟨s', hnotify, rfl⟩

theorem perform_spec (behaviour : Behaviour κ) (request : Request κ) (h : s.Orderly) :
    ∃ s', s.perform behaviour request = .ok s' ∧ s'.Orderly := by
  cases request with
  | add listener => exact ⟨_, rfl, h.listen listener⟩
  | remove id => exact ⟨_, rfl, h.unlisten id⟩
  | replace e =>
      have hreplace := replace_spec behaviour e h
      cases happly : e.apply s.document.text with
      | error reason =>
          rw [happly] at hreplace
          exact ⟨s, bind_eq_ok_iff.2 ⟨_, hreplace, rfl⟩, h⟩
      | ok text =>
          rw [happly] at hreplace
          obtain ⟨s', hreplace, horderly, -⟩ := hreplace
          exact ⟨s', bind_eq_ok_iff.2 ⟨_, hreplace, rfl⟩, horderly⟩

theorem run_spec (behaviour : Behaviour κ) (requests : List (Request κ)) (h : s.Orderly) :
    ∃ s', s.run behaviour requests = .ok s' ∧ s'.Orderly := by
  induction requests generalizing s with
  | nil => exact ⟨s, rfl, h⟩
  | cons request rest ih =>
      obtain ⟨s₁, hperform, horderly⟩ := perform_spec behaviour request h
      obtain ⟨s', hrun, horderly'⟩ := ih horderly
      exact ⟨s', bind_eq_ok_iff.2 ⟨s₁, hperform, hrun⟩, horderly'⟩

/-- Whatever a host asks for and whatever the listeners do to the list of listeners: no number is
given twice, those who are registered are those who were added and not removed, in the order of
adding, and every attempt to remove one is answered accordingly.  An edit that is refused changes
nothing and calls nobody.  Any other one calls those who are registered when it is made, each of
them once and in that order, and they all find the text that it makes. -/
theorem told_as_registered (behaviour : Behaviour κ) (text : Text) (requests : List (Request κ)) :
    ∃ s, (ofText text).run behaviour requests = .ok s ∧
      (added s.record).Pairwise (fun a b => a.1 < b.1) ∧
      s.document.listeners = (added s.record).filter (fun l => l.1 ∉ removed s.record) ∧
      Truthful s.record ∧
      ∀ e : Edit, match e.apply s.document.text with
        | .error reason => s.replace behaviour e = .ok (.error (.invalidEdit reason), s)
        | .ok text' => ∃ s' later, s.replace behaviour e = .ok (.ok (), s') ∧
            s'.document.text = text' ∧ s'.record = later ++ s.record ∧
            calls later = s.document.listeners.map fun l => (l.2, e, text') := by
  obtain ⟨s, hrun, horderly⟩ := run_spec behaviour requests (.ofText text)
  refine ⟨s, hrun, horderly.ascending, horderly.listeners, horderly.truthful, fun e => ?_⟩
  have hreplace := replace_spec behaviour e horderly
  cases happly : e.apply s.document.text with
  | error reason => simpa only [happly] using hreplace
  | ok text' =>
      rw [happly] at hreplace
      obtain ⟨s', hreplace, -, htext, later, hrecord, hcalls⟩ := hreplace
      exact ⟨s', later, hreplace, htext, hrecord, hcalls⟩

/-- The first listener removes the second one and itself and adds a third one. -/
example :
    let behaviour : Behaviour Nat := fun _ _ k =>
      if k = 0 then .remove 2 fun _ => .remove 1 fun _ => .add 7 fun _ => .done else .done
    ((ofText ['a']).run behaviour [.add 0, .add 5, .replace ⟨1, 0, ['b']⟩]).toOption.map
        (fun s => (calls s.record, s.document.listeners)) =
      some ([(0, ⟨1, 0, ['b']⟩, ['a', 'b']), (5, ⟨1, 0, ['b']⟩, ['a', 'b'])], [(3, 7)]) := by
  decide

end Roster

end PairEdit.Document
