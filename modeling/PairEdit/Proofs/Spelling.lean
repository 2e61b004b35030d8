import Mathlib.Data.List.Forall2
import PairEdit.Proofs.Codec
import PairEdit.Proofs.Legible

/-!
# One content, many spellings

An envelope may be spelled otherwise than it is written here: the entries of a map come in
any order, lengths are given or left open, heads are wider than they have to be, texts come
in pieces, and a map has entries that nobody asked for.  `Message.Spells` says which items
spell a message in this way, without reference to how they are read, and the main theorem
says that each of them is decoded to the message.
-/

namespace PairEdit

open Cbor

namespace Envelope

/-! ## Spellings -/

/-- A number, in any width. -/
def SpellsNat (n : Nat) (i : Item) : Prop := ∃ w, i = .unsigned w n

/-- A name or a kind: a text that is not in pieces, its length in any width. -/
def SpellsName (name : Text) (i : Item) : Prop := ∃ w, i = .text w name

/-- A text, whole or in pieces that are texts themselves. -/
def SpellsText (t : Text) (i : Item) : Prop :=
  SpellsName t i ∨ ∃ chunks, i = .textChunks chunks ∧ chunks.flatMap Prod.snd = t

/-- A peer: its bytes as numbers in an array of given or of open length. -/
def SpellsPeer (id : PeerId) (i : Item) : Prop :=
  ∃ items, i.items? = some items ∧ List.Forall₂ (fun b => SpellsNat b.toNat) id.bytes items

/-- A field of a map: its name, and which items spell its value. -/
structure Field where
  name : String
  Spells : Item → Prop

/-- The entry is the field. -/
def Field.Entry (f : Field) (e : Item × Item) : Prop := SpellsName f.name.toList e.1 ∧ f.Spells e.2

/-- What an entry that is passed over may hold: numbers, false, true, null, whole texts, and
arrays and maps. -/
def isInert : Item → Bool
  | .unsigned .. | .text .. | .array .. | .openArray _ | .map .. | .openMap _ => true
  | .simple _ n => decide (20 ≤ n ∧ n ≤ 22)
  | _ => false

/-- The entry has a name that none of the fields has. -/
def Unasked (fields : List Field) (e : Item × Item) : Prop :=
  (∃ name, SpellsName name e.1 ∧ (Utf8.encode name).length ≤ maxLabelBytes ∧
    ∀ f ∈ fields, name ≠ f.name.toList) ∧ e.2.everywhere isInert = true

/-- A map of given or of open length, with the fields in any order and other entries among
them. -/
def SpellsMap (fields : List Field) (i : Item) : Prop :=
  ∃ entries known others, i.entries? = some entries ∧ entries.Perm (known ++ others) ∧
    List.Forall₂ Field.Entry fields known ∧ ∀ e ∈ others, Unasked fields e

/-- The fields of a message. -/
def fields : Message → List Field
  | .start offer => [
      ⟨"kind", SpellsName "start".toList⟩,
      ⟨"sender_id", SpellsPeer offer.senderId⟩,
      ⟨"sender_name", SpellsText offer.senderName⟩,
      ⟨"receiver_id", SpellsPeer offer.receiverId⟩,
      ⟨"document_text", SpellsText offer.documentText⟩,
      ⟨"file_name", SpellsText offer.fileName⟩]
  | .update u => [
      ⟨"kind", SpellsName "update".toList⟩,
      ⟨"position", SpellsNat u.edit.pos⟩,
      ⟨"delete_len", SpellsNat u.edit.del⟩,
      ⟨"inserted_text", SpellsText u.edit.ins⟩,
      ⟨"sent", SpellsNat u.sent⟩,
      ⟨"seen", SpellsNat u.seen⟩]
  | .stop => [⟨"kind", SpellsName "stop".toList⟩]

/-- The item spells the envelope. -/
def Spells (e : Envelope) (i : Item) : Prop :=
  SpellsMap [⟨"version", SpellsNat e.version⟩, ⟨"message", SpellsMap (fields e.message)⟩] i

/-! ## Entries by their names -/

/-- The name of an entry, as bytes. -/
def nameOf (e : Item × Item) : Bytes := e.1.string?.getD []

/-- Whether the entry has the name. -/
def isNamed (name : String) (e : Item × Item) : Bool := nameOf e == nameBytes name

/-- The key of the entry is a text in one piece, short enough for a name. -/
def Labelled (e : Item × Item) : Prop :=
  ∃ name, SpellsName name e.1 ∧ (Utf8.encode name).length ≤ maxLabelBytes

variable {e : Item × Item} {entries known others : List (Item × Item)} {fs : List Field}
variable {f : Field} {i : Item}

theorem nameOf_of_spellsName {name : Text} (h : SpellsName name e.1) :
    nameOf e = Utf8.encode name := by
  obtain ⟨w, hw⟩ := h
  rw [nameOf, hw]
  rfl

theorem encode_injective {s t : Text} (h : Utf8.encode s = Utf8.encode t) : s = t := by
  have hdecode := congrArg Utf8.decode? h
  rwa [Utf8.decode?_encode, Utf8.decode?_encode, Option.some.injEq] at hdecode

theorem isNamed_of_entry (h : f.Entry e) (name : String) : isNamed name e = (f.name == name) := by
  rw [isNamed, nameOf_of_spellsName h.1, Bool.eq_iff_iff, beq_iff_eq, beq_iff_eq]
  exact nameBytes_inj

theorem isNamed_of_unasked (h : Unasked fs e) (hf : f ∈ fs) : isNamed f.name e = false := by
  obtain ⟨⟨name, hname, -, hne⟩, -⟩ := h
  rw [isNamed, nameOf_of_spellsName hname, beq_eq_false_iff_ne]
  exact fun heq => hne f hf (encode_injective heq)

theorem labels?_of_labelled (h : ∀ e ∈ entries, Labelled e) :
    labels? entries = some (entries.map fun e => (nameOf e, e.2)) := by
  induction entries with
  | nil => rfl
  | cons e rest ih =>
      obtain ⟨⟨name, ⟨w, hw⟩, hlen⟩, hrest⟩ := List.forall_mem_cons.1 h
      have hlabel : label? e.1 = some (nameOf e) := by
        simp only [label?, nameOf, hw, Item.untagged, hlen, if_true, Item.string?,
          Option.getD_some]
      simp [labels?, hlabel, ih hrest]

theorem fields?_of_labelled (h : ∀ e ∈ entries, Labelled e) :
    fields? entries = some (entries.map fun e => (.name (nameOf e), e.2)) := by
  induction entries with
  | nil => rfl
  | cons e rest ih =>
      obtain ⟨⟨name, ⟨w, hw⟩, -⟩, hrest⟩ := List.forall_mem_cons.1 h
      have hkey : key? e.1 = some (.name (nameOf e)) := by
        rw [nameOf, hw]
        rfl
      simp [fields?, hkey, ih hrest]

theorem exists_field_of_mem (h : List.Forall₂ Field.Entry fs known) (he : e ∈ known) :
    ∃ f ∈ fs, f.Entry e := by
  induction h with
  | nil => cases he
  | cons hg _ ih =>
      rcases List.mem_cons.1 he with rfl | hmem
      · exact ⟨_, List.mem_cons_self, hg⟩
      · obtain ⟨f, hf, hentry⟩ := ih hmem
        exact ⟨f, List.mem_cons_of_mem _ hf, hentry⟩

/-- Among entries that are fields with names of their own, each name is found once. -/
theorem exists_filter_known (hknown : List.Forall₂ Field.Entry fs known)
    (hnodup : (fs.map Field.name).Nodup) (hf : f ∈ fs) :
    ∃ e, known.filter (isNamed f.name) = [e] ∧ f.Entry e := by
  induction hknown with
  | nil => cases hf
  | @cons g e fs known hg hrest ih =>
      rw [List.map_cons, List.nodup_cons] at hnodup
      rcases List.mem_cons.1 hf with rfl | hmem
      · have hnone : known.filter (isNamed f.name) = [] := by
          refine List.filter_eq_nil_iff.2 fun x hx => ?_
          obtain ⟨g, hg, hentry⟩ := exists_field_of_mem hrest hx
          rw [isNamed_of_entry hentry, beq_iff_eq]
          rintro heq
          exact hnodup.1 (heq ▸ List.mem_map_of_mem hg)
        exact ⟨e, by simp [isNamed_of_entry hg, hnone], hg⟩
      · obtain ⟨x, hx, hentry⟩ := ih hnodup.2 hmem
        have hne : g.name ≠ f.name := fun heq => hnodup.1 (heq ▸ List.mem_map_of_mem hmem)
        exact ⟨x, by simp [isNamed_of_entry hg, hne, hx], hentry⟩

namespace SpellsMap

/-- Each field is found once among the entries, whatever their order. -/
theorem exists_filter (h : SpellsMap fs i) (hnodup : (fs.map Field.name).Nodup)
    (hentries : i.entries? = some entries) (hf : f ∈ fs) :
    ∃ e, entries.filter (isNamed f.name) = [e] ∧ f.Entry e := by
  obtain ⟨entries', known, others, heq, hperm, hknown, hothers⟩ := h
  obtain rfl : entries' = entries := Option.some.inj (heq ▸ hentries)
  obtain ⟨e, he, hentry⟩ := exists_filter_known hknown hnodup hf
  have hnone : others.filter (isNamed f.name) = [] :=
    List.filter_eq_nil_iff.2 fun x hx => by simp [isNamed_of_unasked (hothers x hx) hf]
  have hfilter := hperm.filter (isNamed f.name)
  rw [List.filter_append, he, hnone, List.append_nil] at hfilter
  exact ⟨e, List.perm_singleton.1 hfilter, hentry⟩

/-- An entry is one of the fields, or it is not asked for. -/
theorem entry_or_unasked (h : SpellsMap fs i) (hentries : i.entries? = some entries)
    (he : e ∈ entries) : (∃ f ∈ fs, f.Entry e) ∨ Unasked fs e := by
  obtain ⟨entries', known, others, heq, hperm, hknown, hothers⟩ := h
  obtain rfl : entries' = entries := Option.some.inj (heq ▸ hentries)
  rcases List.mem_append.1 (hperm.mem_iff.1 he) with hmem | hmem
  · exact .inl (exists_field_of_mem hknown hmem)
  · exact .inr (hothers e hmem)

theorem labelled (h : SpellsMap fs i) (hentries : i.entries? = some entries)
    (hshort : ∀ f ∈ fs, (nameBytes f.name).length ≤ maxLabelBytes) :
    ∀ e ∈ entries, Labelled e := by
  intro e he
  rcases h.entry_or_unasked hentries he with ⟨f, hf, hentry⟩ | ⟨⟨name, hname, hlen, -⟩, -⟩
  · exact ⟨_, hentry.1, hshort f hf⟩
  · exact ⟨name, hname, hlen⟩

end SpellsMap

/-! ## Values -/

theorem nat?_of_spellsNat {n : Nat} (h : SpellsNat n i) : i.nat? = some n := by
  obtain ⟨w, rfl⟩ := h
  rfl

theorem text?_of_spellsText {t : Text} (h : SpellsText t i) : i.text? = some t := by
  rcases h with ⟨w, rfl⟩ | ⟨chunks, rfl, rfl⟩
  · rfl
  · rfl

theorem label?_of_spellsName {name : Text} (h : SpellsName name i)
    (hlen : (Utf8.encode name).length ≤ maxLabelBytes) : label? i = some (Utf8.encode name) := by
  obtain ⟨w, rfl⟩ := h
  simp only [label?, Item.untagged, hlen, if_true]

theorem bytes?_of_forall₂ {bytes : Bytes} {items : List Item}
    (h : List.Forall₂ (fun b => SpellsNat b.toNat) bytes items) : bytes? items = some bytes := by
  induction h with
  | nil => rfl
  | @cons b i bytes items hb _ ih =>
      have hbyte : byte? i = some b := by
        simp only [byte?, nat?_of_spellsNat hb, b.toNat_lt, if_true, UInt8.ofNat_toNat]
      simp [bytes?, hbyte, ih]

theorem peer?_of_spellsPeer {id : PeerId} (h : SpellsPeer id i) : peer? i = some id := by
  obtain ⟨items, hitems, hbytes⟩ := h
  simp [peer?, hitems, bytes?_of_forall₂ hbytes, PeerId.ofBytes?_bytes]

/-! ## Nothing in a spelling is refused -/

theorem isPlain_of_isInert (h : isInert i = true) : i.isPlain = true := by
  cases i <;> simp_all [isInert, Item.isPlain]

theorem isInRange_of_isInert (h : isInert i = true) : i.isInRange = true := by
  cases i <;> simp_all [isInert, Item.isInRange]

theorem everywhere_of_spellsNat {n : Nat} (h : SpellsNat n i) :
    i.everywhere Item.isPlain = true := by
  obtain ⟨w, rfl⟩ := h
  rfl

theorem everywhere_of_spellsText {t : Text} (h : SpellsText t i) :
    i.everywhere Item.isPlain = true := by
  rcases h with ⟨w, rfl⟩ | ⟨chunks, rfl, rfl⟩
  · rfl
  · rfl

theorem everywhere_of_spellsPeer {id : PeerId} (h : SpellsPeer id i) :
    i.everywhere Item.isPlain = true := by
  obtain ⟨items, hitems, hbytes⟩ := h
  have hall : Item.everywhereIn Item.isPlain items = true := by
    generalize id.bytes = bytes at hbytes
    clear hitems
    induction hbytes with
    | nil => rfl
    | cons hb _ ih => rw [Item.everywhereIn, everywhere_of_spellsNat hb, ih]; rfl
  cases i with
  | array w items' => cases hitems; exact hall
  | openArray items' => cases hitems; exact hall
  | _ => cases hitems

/-- What is not asked for in a message may be passed over. -/
theorem everywhere_of_unasked (h : Unasked fs e) :
    e.1.everywhere Item.isPlain = true ∧ e.2.everywhere Item.isPlain = true := by
  obtain ⟨⟨name, hname, -⟩, hvalue⟩ := h
  exact ⟨everywhere_of_spellsText (.inl hname),
    Item.everywhere_mono (fun _ => isPlain_of_isInert) _ hvalue⟩

theorem everywhere_of_mem_fields {m : Message} (hf : f ∈ fields m) (h : f.Spells i) :
    i.everywhere Item.isPlain = true := by
  cases m with
  | start offer =>
      simp only [fields, List.mem_cons, List.not_mem_nil, or_false] at hf
      rcases hf with rfl | rfl | rfl | rfl | rfl | rfl
      · exact everywhere_of_spellsText (.inl h)
      · exact everywhere_of_spellsPeer h
      · exact everywhere_of_spellsText h
      · exact everywhere_of_spellsPeer h
      · exact everywhere_of_spellsText h
      · exact everywhere_of_spellsText h
  | update u =>
      simp only [fields, List.mem_cons, List.not_mem_nil, or_false] at hf
      rcases hf with rfl | rfl | rfl | rfl | rfl | rfl
      · exact everywhere_of_spellsText (.inl h)
      · exact everywhere_of_spellsNat h
      · exact everywhere_of_spellsNat h
      · exact everywhere_of_spellsText h
      · exact everywhere_of_spellsNat h
      · exact everywhere_of_spellsNat h
  | stop =>
      obtain rfl := List.mem_singleton.1 hf
      exact everywhere_of_spellsText (.inl h)

/-! ## Reading a spelling -/

/-- Labels are looked up by the names of the entries. -/
theorem labelled?_map_eq (entries : List (Item × Item)) (name : String) :
    labelled? (entries.map fun e => (nameOf e, e.2)) name =
      single? ((entries.filter (isNamed name)).map Prod.snd) := by
  have hpred : ((fun x : Bytes × Item => decide (x.1 = nameBytes name)) ∘
      fun e => (nameOf e, e.2)) = isNamed name := by
    funext x
    simp [isNamed, Bool.beq_eq_decide_eq]
  rw [labelled?, List.filter_map, hpred, List.map_map]
  rfl

/-- Fields that have names are looked up by them, and not by their place. -/
theorem value?_map_eq (entries : List (Item × Item)) (name : String) (index : Option Nat) :
    Fields.value? (entries.map fun e => (.name (nameOf e), e.2)) name index =
      single? ((entries.filter (isNamed name)).map Prod.snd) := by
  have hpred : ((fun x : Key × Item => decide (x.1 = .name (nameBytes name)) ||
      index.any fun n => x.1 = .index n) ∘ fun e => (.name (nameOf e), e.2)) = isNamed name := by
    funext x
    cases index with
    | none => simp [isNamed, Bool.beq_eq_decide_eq]
    | some n => simp [isNamed, Bool.beq_eq_decide_eq]
  rw [Fields.value?, List.filter_map, hpred, List.map_map]
  rfl

theorem labelled?_map {name : String} (h : entries.filter (isNamed name) = [e]) :
    labelled? (entries.map fun e => (nameOf e, e.2)) name = some e.2 := by
  rw [labelled?_map_eq, h]
  rfl

theorem value?_map {name : String} {index : Option Nat} (h : entries.filter (isNamed name) = [e]) :
    Fields.value? (entries.map fun e => (.name (nameOf e), e.2)) name index = some e.2 := by
  rw [value?_map_eq, h]
  rfl

theorem isKind_eq (e : Item × Item) : isKind e = isNamed "kind" e := by
  rw [isKind, isNamed, nameOf]
  cases e.1.string? with
  | none => rfl
  | some content => rfl

theorem nodup_fields (m : Message) : ((fields m).map Field.name).Nodup := by
  cases m with
  | start | update | stop =>
      simp only [fields, List.map_cons, List.map_nil]
      decide

theorem length_le_of_mem_fields {m : Message} (hf : f ∈ fields m) :
    (nameBytes f.name).length ≤ maxLabelBytes := by
  have hall : ∀ name ∈ (fields m).map Field.name, (nameBytes name).length ≤ maxLabelBytes := by
    cases m with
    | start | update | stop =>
        simp only [fields, List.map_cons, List.map_nil]
        decide
  exact hall _ (List.mem_map_of_mem hf)

/-- The kind of a message, as it is written. -/
def kindOf : Message → String
  | .start _ => "start"
  | .update _ => "update"
  | .stop => "stop"

theorem kind_mem_fields (m : Message) : ⟨"kind", SpellsName (kindOf m).toList⟩ ∈ fields m := by
  cases m <;> exact List.mem_cons_self

theorem length_nameBytes_kindOf_le (m : Message) :
    (nameBytes (kindOf m)).length ≤ maxLabelBytes := by
  cases m with
  | start | update | stop =>
      simp only [kindOf]
      decide

/-- In a spelling of a message the kind is found, and then every other field by its name. -/
theorem exists_fields_of_spellsMap {m : Message} (h : SpellsMap (fields m) i) :
    ∃ rest found, message? i = ofFields? (nameBytes (kindOf m)) rest ∧ fields? rest = some found ∧
      ∀ name (Spells : Item → Prop), ⟨name, Spells⟩ ∈ fields m → name ≠ "kind" →
        ∃ value, Spells value ∧ ∀ index, Fields.value? found name index = some value := by
  obtain ⟨entries, -, -, hentries, -⟩ := id h
  have hlabelled := h.labelled hentries fun f hf => length_le_of_mem_fields hf
  have hkinds : entries.filter isKind = entries.filter (isNamed "kind") :=
    List.filter_congr fun e _ => isKind_eq e
  obtain ⟨kind, hkind, hentry⟩ := h.exists_filter (nodup_fields m) hentries (kind_mem_fields m)
  have hlabel : label? kind.2 = some (nameBytes (kindOf m)) :=
    label?_of_spellsName hentry.2 (length_nameBytes_kindOf_le m)
  let rest := entries.filter fun e => !isKind e
  have hplain : Item.everywhereInEntries Item.isPlain rest = true := by
    refine Item.everywhereInEntries_iff.2 fun e he => ?_
    rcases h.entry_or_unasked hentries (List.mem_filter.1 he).1 with ⟨f, hf, hentry⟩ | hunasked
    · exact ⟨everywhere_of_spellsText (.inl hentry.1), everywhere_of_mem_fields hf hentry.2⟩
    · exact everywhere_of_unasked hunasked
  refine ⟨rest, rest.map fun e => (.name (nameOf e), e.2), ?_, ?_, ?_⟩
  · simp [message?, hentries, hkinds, hkind, single?, hlabel, rest, hplain]
  · exact fields?_of_labelled fun e he => hlabelled e (List.mem_filter.1 he).1
  · intro name Spells hf hne
    obtain ⟨e, he, hentry⟩ := h.exists_filter (nodup_fields m) hentries hf
    refine ⟨e.2, hentry.2, fun index => value?_map ?_⟩
    have hmem : e ∈ entries := (List.mem_filter.1 (he ▸ List.mem_singleton_self e)).1
    have hother : isKind e = false := by
      rw [isKind_eq, isNamed_of_entry hentry]
      exact beq_eq_false_iff_ne.2 hne
    rw [List.filter_comm, he]
    simp [hother]

/-- A message is read from each of its spellings. -/
theorem message?_of_spellsMap {m : Message} (h : SpellsMap (fields m) i) : message? i = some m := by
  obtain ⟨rest, found, hmessage, hfound, hvalue⟩ := exists_fields_of_spellsMap h
  rw [hmessage]
  cases m with
  | start offer =>
      obtain ⟨senderId, hsenderId, hfound₁⟩ :=
        hvalue "sender_id" (SpellsPeer offer.senderId) (by simp [fields]) (by decide)
      obtain ⟨senderName, hsenderName, hfound₂⟩ :=
        hvalue "sender_name" (SpellsText offer.senderName) (by simp [fields]) (by decide)
      obtain ⟨receiverId, hreceiverId, hfound₃⟩ :=
        hvalue "receiver_id" (SpellsPeer offer.receiverId) (by simp [fields]) (by decide)
      obtain ⟨documentText, hdocumentText, hfound₄⟩ :=
        hvalue "document_text" (SpellsText offer.documentText) (by simp [fields]) (by decide)
      obtain ⟨fileName, hfileName, hfound₅⟩ :=
        hvalue "file_name" (SpellsText offer.fileName) (by simp [fields]) (by decide)
      simp [ofFields?, kindOf, nameBytes_inj, hfound, hfound₁, hfound₂, hfound₃, hfound₄, hfound₅,
        start?, peer?_of_spellsPeer hsenderId, text?_of_spellsText hsenderName,
        peer?_of_spellsPeer hreceiverId, text?_of_spellsText hdocumentText,
        text?_of_spellsText hfileName]
  | update u =>
      obtain ⟨pos, hpos, hfound₁⟩ :=
        hvalue "position" (SpellsNat u.edit.pos) (by simp [fields]) (by decide)
      obtain ⟨del, hdel, hfound₂⟩ :=
        hvalue "delete_len" (SpellsNat u.edit.del) (by simp [fields]) (by decide)
      obtain ⟨ins, hins, hfound₃⟩ :=
        hvalue "inserted_text" (SpellsText u.edit.ins) (by simp [fields]) (by decide)
      obtain ⟨sent, hsent, hfound₄⟩ :=
        hvalue "sent" (SpellsNat u.sent) (by simp [fields]) (by decide)
      obtain ⟨seen, hseen, hfound₅⟩ :=
        hvalue "seen" (SpellsNat u.seen) (by simp [fields]) (by decide)
      simp [ofFields?, kindOf, nameBytes_inj, hfound, hfound₁, hfound₂, hfound₃, hfound₄, hfound₅,
        nat?_of_spellsNat hpos, nat?_of_spellsNat hdel, text?_of_spellsText hins,
        nat?_of_spellsNat hsent, nat?_of_spellsNat hseen]
  | stop => exact ofFields?_stop rest

theorem untagged_of_entries? (h : i.entries? = some entries) : i.untagged = i := by
  cases i with
  | map | openMap => rfl
  | _ => cases h

theorem levelsEntries_lt_of_entries? (h : i.entries? = some entries) :
    Item.levelsEntries entries < i.levels := by
  cases i with
  | map w entries' =>
      cases h
      exact Nat.lt_succ_self _
  | openMap entries' =>
      cases h
      exact Nat.lt_succ_self _
  | _ => cases h

/-- An envelope is read from each of its spellings, unless something in it is nested too
deep. -/
theorem ofItem?_of_spells {e : Envelope} (hversion : e.version < 256) (h : e.Spells i)
    (hlevels : i.levels ≤ maxDepth) : ofItem? i = some e := by
  have hnodup : ([⟨"version", SpellsNat e.version⟩,
      ⟨"message", SpellsMap (fields e.message)⟩].map Field.name).Nodup := by
    simp only [List.map_cons, List.map_nil]
    decide
  obtain ⟨entries, -, -, hentries, -⟩ := id h
  have hlabelled := SpellsMap.labelled h hentries (by
    simp only [List.forall_mem_cons, List.not_mem_nil, false_implies, implies_true, and_true]
    decide)
  obtain ⟨version, hversionEntry, hversionSpells⟩ :=
    SpellsMap.exists_filter h hnodup hentries List.mem_cons_self
  obtain ⟨message, hmessageEntry, hmessageSpells⟩ :=
    SpellsMap.exists_filter h hnodup hentries (List.mem_cons_of_mem _ List.mem_cons_self)
  have hinteger : version.2.integer? = some e.version := by
    obtain ⟨w, hw⟩ := hversionSpells.2
    rw [hw, Item.integer?]
  have hpassed : (entries.map fun e => (nameOf e, e.2)).all
      (fun x => isKnown x || isSkippable x.2) = true := by
    simp only [List.all_map, List.all_eq_true]
    intro x hx
    have hdepth := (Item.levelsEntries_le_iff.1 (Nat.le_refl _) x hx).2
    have houter := levelsEntries_lt_of_entries? hentries
    have hskip : Unasked [⟨"version", SpellsNat e.version⟩,
        ⟨"message", SpellsMap (fields e.message)⟩] x → isSkippable x.2 = true := by
      intro hunasked
      have hrange := Item.everywhere_mono (fun _ => isInRange_of_isInert) _ hunasked.2
      have hle : x.2.levels ≤ maxLevels := by
        simp only [maxDepth, maxLevels] at hlevels ⊢
        omega
      simp [isSkippable, hrange, hle]
    rcases SpellsMap.entry_or_unasked h hentries hx with ⟨f, hf, hentry⟩ | hunasked
    · have hname := nameOf_of_spellsName hentry.1
      have hknown : isKnown (nameOf x, x.2) = true := by
        simp only [List.mem_cons, List.not_mem_nil, or_false] at hf
        rcases hf with rfl | rfl
        · simp [isKnown, hname, nameBytes]
        · simp [isKnown, hname, nameBytes]
      simp [hknown]
    · simp [hskip hunasked]
  simp [ofItem?, untagged_of_entries? hentries, hentries, labels?_of_labelled hlabelled, hpassed,
    labelled?_map hversionEntry, labelled?_map hmessageEntry, hinteger,
    message?_of_spellsMap hmessageSpells.2, hversion]

/-! ## The spelling that is written -/

theorem spellsNat_natItem (n : Nat) : SpellsNat n (natItem n) := ⟨_, rfl⟩

theorem spellsName_textItem (t : Text) : SpellsName t (textItem t) := ⟨_, rfl⟩

theorem spellsText_textItem (t : Text) : SpellsText t (textItem t) := .inl (spellsName_textItem t)

theorem spellsPeer_peerItem (id : PeerId) : SpellsPeer id (peerItem id) :=
  ⟨_, rfl, List.forall₂_map_right_iff.2
    (List.forall₂_same.2 fun b _ => spellsNat_natItem b.toNat)⟩

theorem spellsMap_of_forall₂ (hentries : i.entries? = some entries)
    (h : List.Forall₂ Field.Entry fs entries) : SpellsMap fs i :=
  ⟨entries, entries, [], hentries, .of_eq (List.append_nil _).symm, h, by simp⟩

theorem entry_of_spells {name : String} {Spells : Item → Prop} {value : Item} (h : Spells value) :
    Field.Entry ⟨name, Spells⟩ (entry name value) :=
  ⟨spellsName_textItem _, h⟩

theorem spellsMap_messageItem (m : Message) : SpellsMap (fields m) (messageItem m) := by
  cases m with
  | start offer =>
      exact spellsMap_of_forall₂ rfl
        (.cons (entry_of_spells (spellsName_textItem _))
        (.cons (entry_of_spells (spellsPeer_peerItem _))
        (.cons (entry_of_spells (spellsText_textItem _))
        (.cons (entry_of_spells (spellsPeer_peerItem _))
        (.cons (entry_of_spells (spellsText_textItem _))
        (.cons (entry_of_spells (spellsText_textItem _)) .nil))))))
  | update u =>
      exact spellsMap_of_forall₂ rfl
        (.cons (entry_of_spells (spellsName_textItem _))
        (.cons (entry_of_spells (spellsNat_natItem _))
        (.cons (entry_of_spells (spellsNat_natItem _))
        (.cons (entry_of_spells (spellsText_textItem _))
        (.cons (entry_of_spells (spellsNat_natItem _))
        (.cons (entry_of_spells (spellsNat_natItem _)) .nil))))))
  | stop => exact spellsMap_of_forall₂ rfl (.cons (entry_of_spells (spellsName_textItem _)) .nil)

/-- The item that is written for an envelope is one of its spellings. -/
theorem spells_item (e : Envelope) : e.Spells e.item :=
  spellsMap_of_forall₂ rfl
    (.cons (entry_of_spells (spellsNat_natItem _))
    (.cons (entry_of_spells (spellsMap_messageItem _)) .nil))

end Envelope

/-! ## Decoding -/

namespace Message

/-- A message within the limits is decoded from every spelling of its envelope that is not too
long and not nested too deep. -/
theorem decode_of_spells {limits : Limits} {m : Message} {i : Item}
    (hcheck : m.check limits = .ok ()) (hspells : (Envelope.mk protocolVersion m).Spells i)
    (hlegible : i.Legible) (hlevels : i.levels ≤ Envelope.maxDepth)
    (hlen : i.encode.length ≤ limits.messageBytes) :
    Message.decode limits i.encode = .ok m := by
  have hread : Envelope.ofBytes? i.encode = some ⟨protocolVersion, m⟩ := by
    have happend := read_append (readsBack_of_legible hlegible hlevels) []
    rw [List.append_nil] at happend
    rw [Envelope.ofBytes?, happend]
    exact Envelope.ofItem?_of_spells (by simp only [protocolVersion]; omega) hspells hlevels
  rw [Message.decode, if_neg (Nat.not_lt.2 hlen), hread]
  simp [hcheck]

/-- An insertion of two letters, with heads of all widths and a text of three pieces, and an
entry that is passed over. -/
def wideEntries : List (Item × Item) := [
  (.text .inline "kind".toList, .text .four "update".toList),
  (.text .inline "position".toList, .unsigned .inline 1),
  (.text .inline "delete_len".toList, .unsigned .two 0),
  (.text .inline "inserted_text".toList,
    .textChunks [(.one, "a".toList), (.inline, []), (.eight, "é".toList)]),
  (.text .four "sent".toList, .unsigned .one 3),
  (.text .one "seen".toList, .unsigned .eight 4),
  (.text .inline "".toList, .openMap [(.unsigned .four 7, .text .one "x".toList)])]

/-- An envelope around the insertion, in which every map is in the reverse of its usual order,
and an entry that is passed over. -/
def wideEnvelope : List (Item × Item) := [
  (.text .inline "version".toList, .unsigned .four 0),
  (.text .two "message".toList, .map .one wideEntries.reverse),
  (.text .inline "history".toList, .openArray [.simple .one 21, .map .two []])]

theorem decode_of_spells_reversed :
    Message.decode .usual (Item.map .eight wideEnvelope.reverse).encode =
      .ok (.update ⟨⟨1, 0, "aé".toList⟩, 3, 4⟩) := by
  refine decode_of_spells rfl ?_ (by decide +kernel) (by decide +kernel) (by decide +kernel)
  refine ⟨_, wideEnvelope.take 2, wideEnvelope.drop 2, rfl, List.reverse_perm wideEnvelope, ?_, ?_⟩
  · refine .cons ⟨⟨_, rfl⟩, _, rfl⟩ (.cons ⟨⟨_, rfl⟩, ?_⟩ .nil)
    refine ⟨_, wideEntries.take 6, wideEntries.drop 6, rfl, List.reverse_perm wideEntries, ?_, ?_⟩
    · exact
        .cons ⟨⟨_, rfl⟩, _, rfl⟩ (.cons ⟨⟨_, rfl⟩, _, rfl⟩ (.cons ⟨⟨_, rfl⟩, _, rfl⟩
        (.cons ⟨⟨_, rfl⟩, .inr ⟨_, rfl, rfl⟩⟩ (.cons ⟨⟨_, rfl⟩, _, rfl⟩
        (.cons ⟨⟨_, rfl⟩, _, rfl⟩ .nil)))))
    · exact List.forall_mem_singleton.2
        ⟨⟨"".toList, ⟨_, rfl⟩, by decide, by simp [Envelope.fields]⟩, rfl⟩
  · exact List.forall_mem_singleton.2 ⟨⟨"history".toList, ⟨_, rfl⟩, by decide, by simp⟩, rfl⟩

end Message

end PairEdit
