import PairEdit.Proofs.Codec

/-!
# Truncated envelopes

A reader that finds something at the front of a byte string finds the same at the front of
every longer one, and leaves what was left before with the new bytes behind it.  More fuel
and a greater depth change nothing about this.

An envelope is read off its bytes with nothing left over.  If a proper part of them, from
the first byte on, could be read as well, then something would be left over when all of
them are read.  So a truncated envelope is always found out, wherever the cut falls.
-/

namespace PairEdit.Cbor

variable {α β : Type}

/-- What `one` finds in a byte string, `one'` finds in every longer one. -/
def Extends (one one' : Reader α) : Prop :=
  ∀ ⦃bytes a rest⦄, one bytes = some (a, rest) →
    ∀ more, one' (bytes ++ more) = some (a, rest ++ more)

/-! ## Readers made of others -/

namespace Extends

variable {one one' : Reader β}

/-- Nothing is read. -/
theorem found (a : α) : Extends (fun rest => some (a, rest)) fun rest => some (a, rest) := by
  intro bytes a' rest h more
  cases h
  rfl

theorem failed {one' : Reader α} : Extends (fun _ => none) one' := by
  intro bytes a rest h
  cases h

/-- One thing is read, and then another one that may depend on it. -/
theorem bind {f f' : β × Bytes → Option (α × Bytes)} (h : Extends one one')
    (hf : ∀ b, Extends (fun rest => f (b, rest)) fun rest => f' (b, rest)) :
    Extends (fun bytes => (one bytes).bind f) fun bytes => (one' bytes).bind f' := by
  intro bytes a rest hread more
  obtain ⟨⟨b, rest'⟩, hone, hrest⟩ := Option.bind_eq_some_iff.1 hread
  exact Option.bind_eq_some_iff.2 ⟨_, h hone more, hf b hrest more⟩

theorem map (h : Extends one one') (f : β → α) :
    Extends (fun bytes => (one bytes).map fun found => (f found.1, found.2))
      fun bytes => (one' bytes).map fun found => (f found.1, found.2) := by
  intro bytes a rest hread more
  obtain ⟨⟨b, rest'⟩, hone, heq⟩ := Option.map_eq_some_iff.1 hread
  cases heq
  exact Option.map_eq_some_iff.2 ⟨_, h hone more, rfl⟩

/-- What is read depends on something that does not come from the bytes. -/
theorem given {o : Option β} {f f' : β → Reader α} (hf : ∀ b, Extends (f b) (f' b)) :
    Extends (fun bytes => o.bind fun b => f b bytes) fun bytes => o.bind fun b => f' b bytes := by
  cases o with
  | none => exact failed
  | some b => exact hf b

theorem ite {c : Prop} [Decidable c] {yes yes' no no' : Reader α} (hyes : Extends yes yes')
    (hno : Extends no no') :
    Extends (fun bytes => if c then yes bytes else no bytes)
      fun bytes => if c then yes' bytes else no' bytes := by
  split
  · exact hyes
  · exact hno

end Extends

/-! ## Heads and strings -/

theorem extends_cut? (n : Nat) : Extends (Sequence.cut? n) (Sequence.cut? n) := by
  intro bytes content rest h more
  rw [Sequence.cut?_eq] at h ⊢
  split at h
  · next hlen =>
      cases h
      rw [if_pos (by rw [List.length_append]; omega), List.take_append_of_le_length hlen,
        List.drop_append_of_le_length hlen]
  · cases h

theorem extends_readArgument (code : Nat) : Extends (readArgument code) (readArgument code) := by
  have hwide (w : Width) :=
    (extends_cut? w.size).map fun digits => Argument.number w (ofBigEndian digits)
  unfold readArgument
  refine .ite (.found _) ?_
  split
  iterate 4 exact hwide _
  · exact .found _
  · exact .failed

theorem readHead_append {bytes rest : Bytes} {major : Major} {argument : Argument}
    (h : readHead bytes = some (major, argument, rest)) (more : Bytes) :
    readHead (bytes ++ more) = some (major, argument, rest ++ more) := by
  cases bytes with
  | nil => cases h
  | cons first bytes =>
      obtain ⟨⟨argument', rest'⟩, hargument, h⟩ := Option.bind_eq_some_iff.1 h
      cases h
      exact Option.bind_eq_some_iff.2 ⟨_, extends_readArgument _ hargument more, rfl⟩

/-- A head is read, and then something that may depend on it. -/
theorem Extends.afterHead {f f' : Major × Argument × Bytes → Option (α × Bytes)}
    (hf : ∀ major argument,
      Extends (fun rest => f (major, argument, rest)) fun rest => f' (major, argument, rest)) :
    Extends (fun bytes => (readHead bytes).bind f) fun bytes => (readHead bytes).bind f' := by
  intro bytes a rest hread more
  obtain ⟨⟨major, argument, rest'⟩, hhead, hrest⟩ := Option.bind_eq_some_iff.1 hread
  exact Option.bind_eq_some_iff.2
    ⟨_, readHead_append hhead more, hf major argument hrest more⟩

/-! ## Several things in a row -/

namespace Extends

variable {one one' : Reader α} {fuel fuel' : Nat}

theorem readMany (h : Extends one one') (read : List α) (count : Nat) :
    Extends (readMany one read count) (readMany one' read count) := by
  induction count generalizing read with
  | zero => exact found read.reverse
  | succ count ih => exact h.bind fun a => ih (a :: read)

theorem readUntilBreak (h : Extends one one') (read : List α) (hfuel : fuel ≤ fuel') :
    Extends (readUntilBreak one read fuel) (readUntilBreak one' read fuel') := by
  induction fuel generalizing read fuel' with
  | zero => exact failed
  | succ fuel ih =>
      obtain ⟨fuel', rfl⟩ := Nat.exists_eq_add_of_lt (Nat.lt_of_succ_le hfuel)
      have hnext (a : α) := ih (a :: read) (Nat.le_add_right fuel fuel')
      intro bytes as rest hread more
      cases bytes with
      | nil => cases hread
      | cons b after =>
          rw [Cbor.readUntilBreak] at hread
          rw [List.cons_append, Cbor.readUntilBreak]
          dsimp only at hread ⊢
          split at hread
          · next hbreak =>
              cases hread
              exact if_pos hbreak
          · next hbreak =>
              rw [if_neg hbreak]
              exact h.bind hnext hread more

theorem readEntry {one one' : Reader Item} (h : Extends one one') :
    Extends (readEntry one) (readEntry one') :=
  h.bind fun key => h.bind fun value => found (key, value)

end Extends

theorem extends_readChunks (major : Major) (read : List (Width × Bytes)) (opened : Nat)
    {fuel fuel' : Nat} (hfuel : fuel ≤ fuel') :
    Extends (readChunks major read opened fuel) (readChunks major read opened fuel') := by
  induction fuel generalizing read opened fuel' with
  | zero => exact .failed
  | succ fuel ih =>
      obtain ⟨fuel', rfl⟩ := Nat.exists_eq_add_of_lt (Nat.lt_of_succ_le hfuel)
      have hless : fuel ≤ fuel + fuel' := Nat.le_add_right fuel fuel'
      refine .afterHead fun m argument => ?_
      cases argument with
      | indefinite =>
          exact .ite (.ite (.found _) (ih read (opened - 1) hless))
            (.ite (ih read (opened + 1) hless) .failed)
      | number w n =>
          exact .ite ((extends_cut? n).bind fun content =>
            ih ((w, content) :: read) opened hless) .failed

theorem readTags_append {fuel fuel' : Nat} (hfuel : fuel ≤ fuel')
    {read tags : List (Width × Nat)} {bytes rest : Bytes} {major : Major} {argument : Argument}
    (h : readTags read fuel bytes = some (tags, major, argument, rest)) (more : Bytes) :
    readTags read fuel' (bytes ++ more) = some (tags, major, argument, rest ++ more) := by
  induction fuel generalizing read bytes fuel' with
  | zero => cases h
  | succ fuel ih =>
      obtain ⟨fuel', rfl⟩ := Nat.exists_eq_add_of_lt (Nat.lt_of_succ_le hfuel)
      obtain ⟨⟨m, arg, rest'⟩, hhead, h⟩ := Option.bind_eq_some_iff.1 h
      refine Option.bind_eq_some_iff.2 ⟨_, readHead_append hhead more, ?_⟩
      dsimp only at h ⊢
      split at h
      · exact ih (Nat.le_add_right fuel fuel') h
      · cases h
        rfl

/-- The tags and the head of an item are read, and then something that may depend on them. -/
theorem Extends.afterTags {fuel fuel' : Nat} (hfuel : fuel ≤ fuel') {read : List (Width × Nat)}
    {f f' : List (Width × Nat) × Major × Argument × Bytes → Option (α × Bytes)}
    (hf : ∀ tags major argument, Extends (fun rest => f (tags, major, argument, rest))
      fun rest => f' (tags, major, argument, rest)) :
    Extends (fun bytes => (readTags read fuel bytes).bind f)
      fun bytes => (readTags read fuel' bytes).bind f' := by
  intro bytes a rest hread more
  obtain ⟨⟨tags, major, argument, rest'⟩, htags, hrest⟩ := Option.bind_eq_some_iff.1 hread
  exact Option.bind_eq_some_iff.2
    ⟨_, readTags_append hfuel htags more, hf tags major argument hrest more⟩

/-! ## Items -/

section

variable {nested nested' : Option (Reader Item)} {fuel fuel' : Nat}

/-- The readers of what is inside an item, if there are any, extend each other. -/
def ExtendsInside (nested nested' : Option (Reader Item)) : Prop :=
  ∀ one, nested = some one → ∃ one', nested' = some one' ∧ Extends one one'

theorem ExtendsInside.bind (h : ExtendsInside nested nested') {f f' : Reader Item → Reader α}
    (hf : ∀ one one', Extends one one' → Extends (f one) (f' one')) :
    Extends (fun bytes => nested.bind fun one => f one bytes)
      fun bytes => nested'.bind fun one => f' one bytes := by
  cases nested with
  | none => exact .failed
  | some one =>
      obtain ⟨one', rfl, hone⟩ := h one rfl
      exact hf one one' hone

theorem extends_readBody (hnested : ExtendsInside nested nested') (hfuel : fuel ≤ fuel')
    (major : Major) (argument : Argument) :
    Extends (readBody fuel nested major argument) (readBody fuel' nested' major argument) := by
  unfold readBody
  split
  · exact .found _
  · exact .found _
  · exact (extends_cut? _).bind fun content => .found _
  · exact (extends_readChunks .bytes [] 1 hfuel).bind fun chunks => .found _
  · exact (extends_cut? _).bind fun content => .given fun t => .found _
  · exact (extends_readChunks .text [] 1 hfuel).bind fun chunks => .given fun chunks => .found _
  · exact hnested.bind fun one one' h => (h.readMany [] _).bind fun items => .found _
  · exact hnested.bind fun one one' h => (h.readUntilBreak [] hfuel).bind fun items => .found _
  · exact hnested.bind fun one one' h => (h.readEntry.readMany [] _).bind fun entries => .found _
  · exact hnested.bind fun one one' h =>
      (h.readEntry.readUntilBreak [] hfuel).bind fun entries => .found _
  · split
    · exact .ite (.found _) .failed
    · exact .ite (.found _) .failed
    · exact .found _
  · exact .failed

theorem extends_readItem (hnested : ExtendsInside nested nested') (hfuel : fuel ≤ fuel') :
    Extends (readItem fuel nested) (readItem fuel' nested') := by
  refine .afterHead fun major argument => ?_
  dsimp only
  split
  · refine .afterTags hfuel fun tags major argument => ?_
    dsimp only
    exact (extends_readBody hnested hfuel major argument).bind fun item =>
      .found (tags.foldl (fun item tag => .tagged tag.1 tag.2 item) item)
  · exact extends_readBody hnested hfuel major argument

end

theorem extends_readWithin {fuel fuel' depth depth' : Nat} (hfuel : fuel ≤ fuel')
    (hdepth : depth ≤ depth') : Extends (readWithin fuel depth) (readWithin fuel' depth') := by
  induction depth generalizing depth' with
  | zero => 
    cases depth' with
    | zero => exact extends_readItem nofun hfuel
    | succ depth' => exact extends_readItem nofun hfuel
  | succ depth ih =>
      obtain ⟨depth', rfl⟩ := Nat.exists_eq_add_of_lt (Nat.lt_of_succ_le hdepth)
      refine extends_readItem ?_ hfuel
      rintro one ⟨⟩
      exact ⟨_, rfl, ih (Nat.le_add_right depth depth')⟩

/-- What is read from a byte string is read from every longer one. -/
theorem read_append_of_read {depth : Nat} {bytes rest : Bytes} {i : Item}
    (h : read depth bytes = some (i, rest)) (more : Bytes) :
    read depth (bytes ++ more) = some (i, rest ++ more) := by
  have hfuel : bytes.length ≤ (bytes ++ more).length := by
    rw [List.length_append]
    exact Nat.le_add_right _ _
  exact extends_readWithin hfuel (Nat.le_refl depth) h more

/-- Of the bytes of an item that is read back no proper part can be read. -/
theorem read_eq_none_of_isPrefix {depth : Nat} {i : Item} (hback : ReadsBack depth i)
    {part : Bytes} (hpart : part <+: i.encode) (hproper : part ≠ i.encode) :
    read depth part = none := by
  obtain ⟨missing, hmissing⟩ := hpart
  rw [Option.eq_none_iff_forall_ne_some]
  rintro ⟨i', rest⟩ hread
  have hwhole : read depth i.encode = some (i', rest ++ missing) :=
    hmissing ▸ read_append_of_read hread missing
  have hitself : read depth i.encode = some (i, []) := by
    simpa using read_append hback []
  have hleft : rest ++ missing = [] :=
    (congrArg Prod.snd (Option.some.inj (hwhole.symm.trans hitself)))
  have hnothing : missing = [] := (List.append_eq_nil_iff.1 hleft).2
  exact hproper (by rw [← hmissing, hnothing, List.append_nil])

end PairEdit.Cbor

namespace PairEdit.Envelope

open Cbor

variable {e e' : Envelope} {part : Bytes}

theorem ofBytes?_eq_none_of_isPrefix (hversion : e.version < 256) (hsized : e.message.Sized)
    (hpart : part <+: e.bytes) (hproper : part ≠ e.bytes) : ofBytes? part = none := by
  have hword : e.version ≤ Word.max := Nat.le_trans (Nat.le_of_lt hversion) (by decide)
  have hback : ReadsBack maxDepth e.item := readsBack_item hword hsized
  rw [ofBytes?, read_eq_none_of_isPrefix hback hpart hproper]
  rfl

/-- The bytes of an envelope tell which one it is. -/
theorem eq_of_bytes_eq (hversion : e.version < 256) (hsized : e.message.Sized)
    (hversion' : e'.version < 256) (hsized' : e'.message.Sized) (h : e.bytes = e'.bytes) :
    e = e' := by
  have hread := ofBytes?_append hversion hsized []
  rw [h, ofBytes?_append hversion' hsized' []] at hread
  exact (Option.some.inj hread).symm

end PairEdit.Envelope

namespace PairEdit.Message

/-- No proper part of an envelope is decoded to anything, and no envelope starts with the
bytes of another one. -/
theorem truncation_detected :
    (∀ version < 256, ∀ m : Message, m.Sized → ∀ (limits : Limits) (part : Bytes),
      part <+: (Envelope.mk version m).bytes → part ≠ (Envelope.mk version m).bytes →
      part.length ≤ limits.messageBytes → Message.decode limits part = .error .decoding) ∧
    ∀ e e' : Envelope, e.version < 256 → e.message.Sized → e'.version < 256 →
      e'.message.Sized → e.bytes <+: e'.bytes → e = e' := by
  constructor
  · intro version hversion m hsized limits part hpart hproper hlen
    have hread : Envelope.ofBytes? part = none :=
      Envelope.ofBytes?_eq_none_of_isPrefix hversion hsized hpart hproper
    rw [Message.decode, if_neg (Nat.not_lt.2 hlen), hread]
  · intro e e' hversion hsized hversion' hsized' hprefix
    by_cases hsame : e.bytes = e'.bytes
    · exact Envelope.eq_of_bytes_eq hversion hsized hversion' hsized' hsame
    · have hcut := Envelope.ofBytes?_eq_none_of_isPrefix hversion' hsized' hprefix hsame
      have hread := Envelope.ofBytes?_append hversion hsized []
      rw [List.append_nil, hcut] at hread
      cases hread

/-- An insertion of a letter of two bytes, which a cut may fall into. -/
def accented : Message := .update ⟨⟨300, 2, ['é', 'x']⟩, 70000, 5⟩

/-- Every cut of the insertion is found out, also in an envelope of a foreign version, and it
is no continuation of a stop. -/
theorem truncation_detected_accented :
    (∀ n < (Envelope.mk 7 accented).bytes.length,
      Message.decode .usual ((Envelope.mk 7 accented).bytes.take n) = .error .decoding) ∧
    ¬ (Envelope.mk 0 .stop).bytes <+: (Envelope.mk 0 accented).bytes := by
  have hsized : accented.Sized := by
    simp only [accented, Sized]
    decide
  have hlen : (Envelope.mk 7 accented).bytes.length ≤ Limits.usual.messageBytes := by
    decide +kernel
  constructor
  · intro n hn
    refine truncation_detected.1 7 (by decide) accented hsized .usual _ (List.take_prefix n _) ?_ ?_
    · intro heq
      have hcut := congrArg List.length heq
      rw [List.length_take] at hcut
      omega
    · rw [List.length_take]
      omega
  · intro hprefix
    have heq := truncation_detected.2 ⟨0, .stop⟩ ⟨0, accented⟩ (by decide) trivial (by decide)
      hsized hprefix
    cases heq

end PairEdit.Message
