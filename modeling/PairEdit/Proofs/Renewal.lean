import PairEdit.Proofs.Enrollment
import PairEdit.Proofs.OffsetCalls

/-!
# As if new

Nothing survives a session but what the host was told, the count of sessions and the numbers
that listeners got.  `World.renew` puts a new party in place of an idle one, on the same endpoint
and with the same settings, and new documents with the same texts in place of the old ones.
Whatever is called from then on comes to the same with the old party as with the new one.
-/

namespace PairEdit

/-! ## Documents made anew -/

namespace Document

variable {κ : Type} {d : Document κ} {id i j : Nat}

/-- A new document with the text, on which the listeners were registered in their order. -/
def renew (d : Document κ) : Document κ :=
  d.listeners.foldl (fun fresh l => (fresh.listen l.2).2) (ofText d.text)

/-- The number that a listener of a document has on the new one. -/
def renewedId (d : Document κ) (id : Nat) : Nat := d.listeners.findIdx (fun l => l.1 == id) + 1

/-- The number on a document of a listener of the new one.  What is registered from now on gets
the numbers that come next, on the one and on the other. -/
def formerId (d : Document κ) : Nat → Nat
  | 0 => 0
  | i + 1 =>
    match d.listeners[i]? with
    | some l => l.1
    | none => d.nextId + (i - d.listeners.length)

theorem foldl_listen (listeners : List (Nat × κ)) (fresh : Document κ) :
    listeners.foldl (fun fresh l => (fresh.listen l.2).2) fresh =
      ⟨fresh.text, fresh.listeners ++ listeners.mapIdx fun i l => (fresh.nextId + i, l.2),
        fresh.nextId + listeners.length⟩ := by
  induction listeners generalizing fresh with
  | nil => simp
  | cons l rest ih =>
      have hnumber : ∀ i, fresh.nextId + 1 + i = fresh.nextId + (i + 1) := by omega
      rw [List.foldl_cons, ih]
      simp [listen, hnumber]

theorem renew_eq (d : Document κ) :
    d.renew = ⟨d.text, d.listeners.mapIdx fun i l => (1 + i, l.2), 1 + d.listeners.length⟩ := by
  rw [renew, foldl_listen]
  rfl

theorem formerId_of_lt (h : i < d.listeners.length) : d.formerId (i + 1) = d.listeners[i].1 := by
  rw [formerId, List.getElem?_eq_getElem h]

theorem formerId_of_le (h : d.listeners.length ≤ i) :
    d.formerId (i + 1) = d.nextId + (i - d.listeners.length) := by
  rw [formerId, List.getElem?_eq_none h]

/-- A listener has the number that it had. -/
theorem formerId_renewedId (h : id ∈ d.listeners.map Prod.fst) :
    d.formerId (d.renewedId id) = id := by
  obtain ⟨l, hl, rfl⟩ := List.mem_map.1 h
  have hlt : d.listeners.findIdx (fun l' => l'.1 == l.1) < d.listeners.length :=
    List.findIdx_lt_length_of_exists ⟨l, hl, beq_self_eq_true l.1⟩
  rw [renewedId, formerId_of_lt hlt]
  exact eq_of_beq (List.findIdx_getElem (w := hlt))

theorem map_formerId_renew (f : κ → κ) (hf : ∀ l ∈ d.listeners, f l.2 = l.2) :
    (d.renew.listeners.map fun l => (d.formerId l.1, f l.2)) = d.listeners := by
  rw [renew_eq]
  refine List.ext_getElem (by simp) fun i hi hi' => ?_
  simp only [List.getElem_map, List.getElem_mapIdx, Nat.add_comm 1 i, formerId_of_lt hi',
    hf _ (List.getElem_mem hi')]

theorem formerId_nextId_renew (d : Document κ) : d.formerId d.renew.nextId = d.nextId := by
  rw [renew_eq, Nat.add_comm, formerId_of_le (Nat.le_refl _), Nat.sub_self, Nat.add_zero]

/-- The numbers that come next come one after another. -/
theorem formerId_succ (h : d.renew.nextId ≤ id) : d.formerId (id + 1) = d.formerId id + 1 := by
  have hlength : 1 + d.listeners.length ≤ id := by rwa [renew_eq] at h
  obtain ⟨i, rfl⟩ := Nat.exists_eq_add_of_le' (Nat.le_trans (Nat.le_add_right 1 _) hlength)
  rw [formerId_of_le (by omega), formerId_of_le (by omega)]
  omega

namespace Numbered

theorem formerId_pos (h : d.Numbered) (i : Nat) : 0 < d.formerId (i + 1) := by
  rcases Nat.lt_or_ge i d.listeners.length with hi | hi
  · rw [formerId_of_lt hi]
    exact h.pos _ (List.getElem_mem hi)
  · rw [formerId_of_le hi]
    exact Nat.lt_of_lt_of_le h.next_pos (Nat.le_add_right ..)

/-- No two listeners have one number. -/
theorem formerId_injective (h : d.Numbered) : Function.Injective d.formerId := by
  have hlt : ∀ {i j}, i < d.listeners.length → d.listeners.length ≤ j →
      d.formerId (i + 1) < d.formerId (j + 1) := by
    intro i j hi hj
    rw [formerId_of_lt hi, formerId_of_le hj]
    exact Nat.lt_of_lt_of_le (h.lt _ (List.getElem_mem hi)) (Nat.le_add_right ..)
  intro i j heq
  rcases i with _ | i <;> rcases j with _ | j
  · rfl
  · exact absurd heq (Nat.ne_of_lt (h.formerId_pos j))
  · exact absurd heq.symm (Nat.ne_of_lt (h.formerId_pos i))
  · rcases Nat.lt_or_ge i d.listeners.length with hi | hi <;>
      rcases Nat.lt_or_ge j d.listeners.length with hj | hj
    · rw [formerId_of_lt hi, formerId_of_lt hj] at heq
      have hget : (d.listeners.map Prod.fst)[i]? = (d.listeners.map Prod.fst)[j]? := by
        simp [hi, hj, heq]
      exact congrArg Nat.succ ((List.getElem?_inj (by simpa using hi) h.nodup).1 hget)
    · exact absurd heq (Nat.ne_of_lt (hlt hi hj))
    · exact absurd heq.symm (Nat.ne_of_lt (hlt hj hi))
    · rw [formerId_of_le hi, formerId_of_le hj] at heq
      omega

end Numbered

end Document

namespace Session

open World

variable {reactive : Nat → Prop} {w w' : World} {p q d : Nat}

/-! ## Parties made anew -/

/-- A phase on new documents: a session captures with the listener that it captured with. -/
def World.renewPhase (w : World) : Phase → Phase
  | .idle => .idle
  | .offered o => .offered o
  | .live l => .live { l with capture := l.capture.map (w.document l.document).renewedId }

/-- A new party in place of an old one, on the same endpoint and with the same settings, and new
documents in place of the old ones. -/
def World.renew (w : World) (p : Nat) : World :=
  { w with
    parties := w.parties.adjust fun q party =>
      if q = p then ⟨party.endpoint, party.config, .idle, 0, false, [], party.released⟩
      else { party with phase := w.renewPhase party.phase }
    surfaces := w.surfaces.adjust fun _ s => { s with document := s.document.renew } }

/-- What is not renewed: the events and the epochs of a party, and the numbers of listeners. -/
def World.offset (w : World) (p : Nat) : Offset where
  events q := if q = p then (w.party p).events else []
  epochs q := if q = p then (w.party p).epochs else 0
  queue _ := []
  number d := (w.document d).formerId

theorem World.document_renew (w : World) (p d : Nat) :
    (w.renew p).document d = (w.document d).renew :=
  congrArg Surface.document (Table.get_adjust (t := w.surfaces)
    (g := fun _ s => { s with document := s.document.renew }) (fun _ _ => rfl) d)

theorem World.epochs_offset_of_ne (h : q ≠ p) (epoch : Nat) :
    (w.offset p).epochs q + epoch = epoch :=
  (congrArg (· + epoch) (if_neg h)).trans (Nat.zero_add epoch)

theorem World.onPhase_renewPhase (h : Enrolled w) (hq : q ≠ p) :
    (w.offset p).onPhase q (w.renewPhase (w.phase q)) = w.phase q := by
  cases hphase : w.phase q with
  | idle => rfl
  | offered o => rfl
  | live l =>
      have hcapture : (l.capture.map (w.document l.document).renewedId).map
          (w.document l.document).formerId = l.capture := by
        cases hcapture : l.capture with
        | none => rfl
        | some id =>
            have hmem := h.hasCapture q l id hphase hcapture
            exact congrArg some (Document.formerId_renewedId (List.mem_map_of_mem hmem))
      simp only [renewPhase, Offset.onPhase, Offset.onLive, epochs_offset_of_ne hq]
      exact congrArg (fun capture => Phase.live { l with capture }) hcapture

theorem World.onParty_renew_self (hidle : w.phase p = .idle)
    (hfree : (w.party p).writing = false) :
    (w.offset p).onParty p ⟨(w.party p).endpoint, (w.party p).config, .idle, 0, false, [],
      (w.party p).released⟩ = w.party p := by
  have hparty : w.party p = { w.party p with phase := .idle, writing := false } := by
    rw [← hidle, ← hfree]
    rfl
  simp only [Offset.onParty, Offset.onPhase, offset, if_pos, Nat.add_zero, List.append_nil]
  exact hparty.symm

theorem World.onParty_renew_of_ne (h : Enrolled w) (hq : q ≠ p) :
    (w.offset p).onParty q { w.party q with phase := w.renewPhase (w.phase q) } = w.party q := by
  have hevents : (w.offset p).events q = [] := if_neg hq
  simp only [Offset.onParty, onPhase_renewPhase h hq, epochs_offset_of_ne hq, hevents,
    List.nil_append]
  rfl

/-- No listener captures for an idle party. -/
theorem World.onSubscriber_offset (hsubscribed : Subscribed w) (hidle : w.phase p = .idle)
    {l : Nat × Subscriber} (hl : l ∈ (w.document d).listeners) :
    (w.offset p).onSubscriber l.2 = l.2 := by
  obtain ⟨id, subscriber⟩ := l
  cases subscriber with
  | host i => rfl
  | capture q epoch =>
      have hq : q ≠ p := by
        rintro rfl
        obtain ⟨live, hlive, -⟩ := hsubscribed.capturesWith d id q epoch hl
        rw [hidle] at hlive
        cases hlive
      simp only [Offset.onSubscriber, epochs_offset_of_ne hq]

theorem World.onDocument_renew (hsubscribed : Subscribed w) (hidle : w.phase p = .idle) (d : Nat) :
    (w.offset p).onDocument d (w.document d).renew = w.document d := by
  have hlisteners := (w.document d).map_formerId_renew (w.offset p).onSubscriber fun _ hl =>
    onSubscriber_offset hsubscribed hidle hl
  have htext : (w.document d).renew.text = (w.document d).text := by rw [Document.renew_eq]
  simp only [Offset.onDocument, htext]
  rw [show (w.offset p).number d = (w.document d).formerId from rfl, hlisteners,
    Document.formerId_nextId_renew]

/-- A world with an idle party is the renewed one with what is not renewed. -/
theorem World.offset_on_renew (henrolled : Enrolled w) (hsubscribed : Subscribed w)
    (hidle : w.phase p = .idle) (hfree : (w.party p).writing = false) :
    (w.offset p).on (w.renew p) = w := by
  have hparties : (w.renew p).parties.adjust (w.offset p).onParty = w.parties := by
    refine Table.ext_get (by simp [renew]) fun q => ?_
    rcases Nat.lt_or_ge q w.parties.slots.length with hq | hq
    · rw [Table.get_adjust_of_lt (by simpa [renew] using hq), renew, Table.get_adjust_of_lt hq]
      by_cases heq : q = p
      · subst heq
        rw [if_pos rfl]
        exact onParty_renew_self hidle hfree
      · rw [if_neg heq]
        exact onParty_renew_of_ne henrolled heq
    · rw [Table.get_adjust_of_le (by simpa [renew] using hq), renew, Table.get_adjust_of_le hq]
  have hsurfaces : (w.renew p).surfaces.adjust (w.offset p).onSurface = w.surfaces := by
    refine Table.ext_get (by simp [renew]) fun d => ?_
    rcases Nat.lt_or_ge d w.surfaces.slots.length with hd | hd
    · rw [Table.get_adjust_of_lt (by simpa [renew] using hd), renew, Table.get_adjust_of_lt hd]
      exact congrArg (fun document => { w.surfaces.get d with document })
        (onDocument_renew hsubscribed hidle d)
    · rw [Table.get_adjust_of_le (by simpa [renew] using hd), renew, Table.get_adjust_of_le hd]
  have hendpoints : (w.renew p).network.endpoints.adjust (w.offset p).onEndpoint =
      w.network.endpoints := by
    refine Table.ext_get (by simp [renew]) fun id => ?_
    rw [Table.get_adjust fun j _ => Offset.onEndpoint_eq_self (x := w.offset p) rfl _]
    exact Offset.onEndpoint_eq_self rfl _
  rw [Offset.on, hparties, hsurfaces, hendpoints]
  rfl

theorem World.fits_offset (henrolled : Enrolled w) (hp : p < w.parties.slots.length) :
    (w.offset p).Fits (fun _ => True) (w.renew p) where
  events_eq_nil q hq := if_neg fun heq : q = p => by
    simp [renew] at hq
    omega
  epochs_eq_zero q hq := if_neg fun heq : q = p => by
    simp [renew] at hq
    omega
  queue_eq_nil _ _ := rfl
  number_one d hd := by
    have hdefault : w.document d = default :=
      congrArg Surface.document (Table.get_of_le (by simpa [renew] using hd))
    have hone : (w.document d).formerId 1 = 1 := by
      rw [hdefault]
      rfl
    exact hone
  number_injective d := (henrolled.numbered d).formerId_injective
  number_succ d id hid := Document.formerId_succ (by rwa [document_renew] at hid)
  taker _ _ := rfl
  waiting _ _ _ _ := trivial

/-! ## Runs that go on -/

/-- A phase without what tells sessions apart: the epoch, and the number of the listener. -/
def Phase.unmarked : Phase → Phase
  | .live l => .live { l with epoch := 0, capture := l.capture.map fun _ => 0 }
  | phase => phase

/-- Who listens, whatever the epoch is. -/
def Subscriber.unmarked : Subscriber → Subscriber
  | .capture q _ => .capture q 0
  | subscriber => subscriber

/-- The second world is the first one, but that the host of a party was told something before.
Sessions may have other epochs and listeners other numbers. -/
structure Continues (p : Nat) (told : List Event) (w w' : World) : Prop where
  network : w'.network = w.network
  log : w'.log = w.log
  text : ∀ d, (w'.document d).text = (w.document d).text
  listeners : ∀ d, ((w'.document d).listeners.map fun l => l.2.unmarked) =
    (w.document d).listeners.map fun l => l.2.unmarked
  phase : ∀ q, (w'.phase q).unmarked = (w.phase q).unmarked
  writing : ∀ q, (w'.party q).writing = (w.party q).writing
  events : ∀ q, (w'.party q).events = (if q = p then told else []) ++ (w.party q).events

theorem Offset.Follows.continues {w₀ : World} (h : (w₀.offset p).Follows (fun _ => True) w w') :
    Continues p (w₀.party p).events w w' where
  network := by
    have hendpoints : w.network.endpoints.adjust (w₀.offset p).onEndpoint = w.network.endpoints :=
      Table.ext_get (Table.length_adjust ..) fun id => by
        rw [Table.get_adjust fun j _ => Offset.onEndpoint_eq_self (x := w₀.offset p) rfl _]
        exact Offset.onEndpoint_eq_self rfl _
    rw [h.eq]
    exact congrArg Network.mk hendpoints
  log := h.log_eq
  text := h.text_eq
  listeners d := by
    have hunmarked : ∀ subscriber,
        ((w₀.offset p).onSubscriber subscriber).unmarked = subscriber.unmarked := by
      intro subscriber
      cases subscriber <;> rfl
    rw [h.document_eq, Offset.onDocument, List.map_map]
    exact List.map_congr_left fun l _ => hunmarked l.2
  phase q := by
    rw [h.phase_eq]
    cases w.phase q with
    | idle => rfl
    | offered o => rfl
    | live l =>
        simp only [Offset.onPhase, Offset.onLive, Phase.unmarked, Option.map_map]
        rfl
  writing := h.writing_eq
  events q := by
    rw [h.party_eq]
    rfl

/-- Whatever there was before a party became idle, all that happens from
then on is as with a new party on the same endpoint and new documents with the same texts: every
call has the same outcome, the same messages are in the queues, every party is in the same phase,
its host is told the same, and the texts are the same. -/
theorem idle_as_new (h : w.Interlude reactive) (hp : p < w.parties.slots.length)
    (hidle : w.phase p = .idle) (inputs : List Input) :
    Lifts (fun r r' => r'.1 = r.1 ∧ Continues p (w.party p).events r.2 r'.2)
      ((w.renew p).outcomes inputs) (w.outcomes inputs) := by
  have hfollows : (w.offset p).Follows (fun _ => True) (w.renew p) w :=
    ⟨(offset_on_renew h.enrolled h.arises.subscribed hidle (h.writing_eq_false p)).symm,
      fits_offset h.enrolled hp⟩
  refine (hfollows.outcomes inputs).mono ?_
  rintro _ _ ⟨rfl, hlast⟩
  exact ⟨rfl, hlast.continues⟩

/-- Alice has stopped a session, and Bob's host listens to his document.  In the next one Bob
accepts, edits and gets an edit of Alice, who then stops again. -/
theorem idle_as_new_after_stop :
    let alice : PeerId := .ofByte 0xA1
    let bob : PeerId := .ofByte 0xB0
    let inputs : List Input := [.call (.start 0 alice none bob [] 0), .call (.pump 1),
      .call (.accept 1 1), .call (.edit 1 ⟨1, 0, ['S']⟩), .call (.edit 0 ⟨0, 1, []⟩),
      .call (.pump 0), .call (.pump 1), .arrival 0 (.message bob [0xFF]), .call (.pump 0),
      .call (.stop 0)]
    ∃ w : World, w.Interlude (fun _ => True) ∧ (w.party 0).epochs = 1 ∧ w.phase 0 = .idle ∧
      (((w.renew 0).outcomes inputs).toOption.map fun r =>
        ((r.2.document 0).text, (r.2.document 1).text, (r.2.party 0).events.length)) =
          some (['S', 'R', 'b'], ['S', 'R', 'b'], 3) ∧
      Lifts (fun r r' => r'.1 = r.1 ∧ Continues 0 (w.party 0).events r.2 r'.2)
        ((w.renew 0).outcomes inputs) (w.outcomes inputs) := by
  intro alice bob inputs
  let w₀ := ((Pair.idle ['a', 'b'] .usual).world.listen 1 []).2
  have hrun : ∃ w ∈ (w₀.runAll [.start 0 alice none bob [] 0, .pump 1, .accept 1 1,
        .edit 1 ⟨1, 0, ['R']⟩, .pump 0, .stop 0, .pump 1]).toOption,
      (w.party 0).epochs = 1 ∧ w.phase 0 = .idle ∧ 0 < w.parties.slots.length ∧
        (((w.renew 0).outcomes inputs).toOption.map fun r =>
          ((r.2.document 0).text, (r.2.document 1).text, (r.2.party 0).events.length)) =
            some (['S', 'R', 'b'], ['S', 'R', 'b'], 3) := by
    decide +kernel
  obtain ⟨w, hw, hepochs, hidle, hlength, hlast⟩ := hrun
  have hlistened : w₀.Interlude fun _ => True := .arranged (.idle ..) (.listen 1 [] nofun)
  have hinterlude := hlistened.runAll (eq_ok_of_mem_toOption hw)
  exact ⟨w, hinterlude, hepochs, hidle, hlast, idle_as_new hinterlude hlength hidle inputs⟩

end Session

end PairEdit
