import PairEdit.Message.Wire
import PairEdit.Proofs.ReadBack

/-!
# Messages are read back

What one party encodes within the limits, another one with the same limits decodes to
the same message.  The item of an envelope is read back from its bytes, since its
numbers are words and its texts are no longer than the bytes around them, and the
envelope is read back from its item, since each field has a name of its own.
-/

namespace PairEdit

open Cbor

namespace Envelope

/-! ## From bytes to items -/

theorem readsBack_natItem {depth n : Nat} (h : n ≤ Word.max) : ReadsBack depth (natItem n) :=
  .unsigned (Width.lt_bound_narrowest (Nat.lt_of_le_of_lt h (by decide)))

theorem readsBack_textItem {depth : Nat} {t : Text} (h : (Utf8.encode t).length ≤ Word.max) :
    ReadsBack depth (textItem t) :=
  .text (Width.lt_bound_narrowest (Nat.lt_of_le_of_lt h (by decide)))

theorem readsBack_peerItem {depth : Nat} (id : PeerId) : ReadsBack (depth + 1) (peerItem id) := by
  refine .array ?_ ?_
  · rw [List.length_map, id.length_bytes]
    decide
  · intro i hi
    obtain ⟨b, -, rfl⟩ := List.mem_map.1 hi
    exact readsBack_natItem (Nat.le_trans (Nat.le_of_lt b.toNat_lt) (by decide))

theorem readsBack_mapItem {depth : Nat} {entries : List (Item × Item)}
    (hlen : entries.length ≤ Word.max) (h : ∀ e ∈ entries, ReadsBack.Entry depth e) :
    ReadsBack (depth + 1) (mapItem entries) :=
  .map (Width.lt_bound_narrowest (Nat.lt_of_le_of_lt hlen (by decide))) h

theorem readsBack_entry {depth : Nat} {name : String} {value : Item}
    (hname : (Utf8.encode name.toList).length ≤ Word.max) (hvalue : ReadsBack depth value) :
    ReadsBack.Entry depth (entry name value) :=
  ⟨readsBack_textItem hname, hvalue⟩

end Envelope

/-- The numbers of a message are words, and its texts have no more bytes than a word can
count. -/
def Message.Sized : Message → Prop
  | .start offer =>
      (Utf8.encode offer.senderName).length ≤ Word.max ∧
        (Utf8.encode offer.documentText).length ≤ Word.max ∧
        (Utf8.encode offer.fileName).length ≤ Word.max
  | .update u =>
      u.edit.pos ≤ Word.max ∧ u.edit.del ≤ Word.max ∧
        (Utf8.encode u.edit.ins).length ≤ Word.max ∧ u.sent ≤ Word.max ∧ u.seen ≤ Word.max
  | .stop => True

namespace Envelope

theorem readsBack_messageItem {depth : Nat} {m : Message} (h : m.Sized) :
    ReadsBack (depth + 2) (messageItem m) := by
  cases m with
  | start offer =>
      obtain ⟨hname, htext, hfile⟩ := h
      refine readsBack_mapItem (show 6 ≤ Word.max by decide) ?_
      simp only [List.forall_mem_cons, List.not_mem_nil, false_implies, implies_true, and_true]
      exact ⟨readsBack_entry (by decide) (readsBack_textItem (by decide)),
        readsBack_entry (by decide) (readsBack_peerItem _),
        readsBack_entry (by decide) (readsBack_textItem hname),
        readsBack_entry (by decide) (readsBack_peerItem _),
        readsBack_entry (by decide) (readsBack_textItem htext),
        readsBack_entry (by decide) (readsBack_textItem hfile)⟩
  | update u =>
      obtain ⟨hpos, hdel, hins, hsent, hseen⟩ := h
      refine .openMap ?_
      simp only [List.forall_mem_cons, List.not_mem_nil, false_implies, implies_true, and_true]
      exact ⟨readsBack_entry (by decide) (readsBack_textItem (by decide)),
        readsBack_entry (by decide) (readsBack_natItem hpos),
        readsBack_entry (by decide) (readsBack_natItem hdel),
        readsBack_entry (by decide) (readsBack_textItem hins),
        readsBack_entry (by decide) (readsBack_natItem hsent),
        readsBack_entry (by decide) (readsBack_natItem hseen)⟩
  | stop =>
      refine readsBack_mapItem (show 1 ≤ Word.max by decide) ?_
      simp only [List.forall_mem_cons, List.not_mem_nil, false_implies, implies_true, and_true]
      exact readsBack_entry (by decide) (readsBack_textItem (by decide))

theorem readsBack_item {e : Envelope} (hversion : e.version ≤ Word.max) (h : e.message.Sized) :
    ReadsBack maxDepth e.item := by
  refine readsBack_mapItem (show 2 ≤ Word.max by decide) ?_
  simp only [List.forall_mem_cons, List.not_mem_nil, false_implies, implies_true, and_true]
  exact ⟨readsBack_entry (by decide) (readsBack_natItem hversion),
    readsBack_entry (by decide) (readsBack_messageItem h)⟩

/-! ## From items to envelopes -/

theorem nameBytes_inj {a b : String} : nameBytes a = nameBytes b ↔ a = b := by
  constructor
  · intro h
    have hdecode := congrArg Utf8.decode? h
    rw [nameBytes, nameBytes, Utf8.decode?_encode, Utf8.decode?_encode, Option.some.injEq]
      at hdecode
    exact String.toList_inj.1 hdecode
  · rintro rfl
    rfl

theorem label?_textItem {name : String} (h : (nameBytes name).length ≤ maxLabelBytes) :
    label? (textItem name.toList) = some (nameBytes name) := by
  rw [nameBytes] at h
  simp only [label?, textItem, Item.untagged, h, if_true, nameBytes]

@[simp]
theorem isKind_entry (name : String) (value : Item) :
    isKind (entry name value) = (name == "kind") := by
  have hname : (entry name value).1.string? = some (nameBytes name) := rfl
  rw [isKind, hname, Bool.eq_iff_iff]
  simp [nameBytes_inj]

@[simp]
theorem key?_entry (name : String) (value : Item) :
    key? (entry name value).1 = some (.name (nameBytes name)) := rfl

@[simp]
theorem nat?_natItem (n : Nat) : (natItem n).nat? = some n := rfl

@[simp]
theorem text?_textItem (t : Text) : (textItem t).text? = some t := rfl

@[simp]
theorem bytes?_map_natItem (bytes : Bytes) :
    bytes? (bytes.map fun b => natItem b.toNat) = some bytes := by
  induction bytes with
  | nil => rfl
  | cons b rest ih =>
      have hbyte : byte? (natItem b.toNat) = some b := by
        simp only [byte?, nat?_natItem, b.toNat_lt, if_true, UInt8.ofNat_toNat]
      simp only [List.map_cons, bytes?, hbyte, ih, bind, Option.bind, pure]

@[simp]
theorem peer?_peerItem (id : PeerId) : peer? (peerItem id) = some id := by
  simp only [peer?, peerItem, Item.items?, bytes?_map_natItem, bind, Option.bind,
    PeerId.ofBytes?_bytes]

theorem everywhereIn_isPlain_map_natItem (bytes : Bytes) :
    Item.everywhereIn Item.isPlain (bytes.map fun b => natItem b.toNat) = true := by
  induction bytes with
  | nil => rfl
  | cons b rest ih =>
      rw [List.map_cons, Item.everywhereIn, ih]
      rfl

@[simp]
theorem everywhere_isPlain_peerItem (id : PeerId) :
    (peerItem id).everywhere Item.isPlain = true := by
  rw [peerItem, Item.everywhere, everywhereIn_isPlain_map_natItem]
  rfl

@[simp]
theorem ofFields?_stop (entries : List (Item × Item)) :
    ofFields? (nameBytes "stop") entries = some .stop := by
  rw [ofFields?, if_pos rfl]

/-- The kind is found among the entries, and the other ones carry the fields. -/
theorem message?_of_entries {i : Item} (kind : String) {others : List (Item × Item)}
    (hentries : i.entries? = some (entry "kind" (textItem kind.toList) :: others))
    (hkind : (nameBytes kind).length ≤ maxLabelBytes)
    (hothers : ∀ e ∈ others, isKind e = false)
    (hplain : Item.everywhereInEntries Item.isPlain others = true) :
    message? i = ofFields? (nameBytes kind) others := by
  have hnone : others.filter isKind = [] :=
    List.filter_eq_nil_iff.2 fun e he => by simp [hothers e he]
  have hall : (others.filter fun e => !isKind e) = others :=
    List.filter_eq_self.2 fun e he => by simp [hothers e he]
  have hlabel : label? (textItem kind.toList) = some (nameBytes kind) := label?_textItem hkind
  have hvalue : (entry "kind" (textItem kind.toList)).2 = textItem kind.toList := rfl
  simp [message?, hentries, hnone, hall, hvalue, hlabel, hplain, single?]

/-- The fields of entries with names, in the same order. -/
theorem fields?_entries (entries : List (String × Item)) :
    fields? (entries.map fun e => entry e.1 e.2) =
      some (entries.map fun e => (.name (nameBytes e.1), e.2)) := by
  induction entries with
  | nil => rfl
  | cons e rest ih =>
      rw [List.map_cons, entry, fields?, ih]
      rfl

/-- A message is read back from its item. -/
@[simp]
theorem message?_messageItem (m : Message) : message? (messageItem m) = some m := by
  cases m with
  | start offer =>
      rw [message?_of_entries "start" rfl (by decide) (by simp) ?_]
      · have hfields := fields?_entries [("sender_id", peerItem offer.senderId),
          ("sender_name", textItem offer.senderName), ("receiver_id", peerItem offer.receiverId),
          ("document_text", textItem offer.documentText), ("file_name", textItem offer.fileName)]
        simp only [List.map_cons, List.map_nil] at hfields
        simp [ofFields?, nameBytes_inj, hfields, Fields.value?, single?, start?]
      · simp only [entry, Item.everywhereInEntries, Item.everywhereInEntry,
          everywhere_isPlain_peerItem]
        rfl
  | update u =>
      rw [message?_of_entries "update" rfl (by decide) (by simp) ?_]
      · have hfields := fields?_entries [("position", natItem u.edit.pos),
          ("delete_len", natItem u.edit.del), ("inserted_text", textItem u.edit.ins),
          ("sent", natItem u.sent), ("seen", natItem u.seen)]
        simp only [List.map_cons, List.map_nil] at hfields
        simp [ofFields?, nameBytes_inj, hfields, Fields.value?, single?]
      · rfl
  | stop =>
      rw [message?_of_entries "stop" rfl (by decide) (by simp) rfl]
      simp

theorem labels?_entries {version message : Item} :
    labels? [entry "version" version, entry "message" message] =
      some [(nameBytes "version", version), (nameBytes "message", message)] := by
  have hversion : label? (textItem "version".toList) = some (nameBytes "version") :=
    label?_textItem (by decide)
  have hmessage : label? (textItem "message".toList) = some (nameBytes "message") :=
    label?_textItem (by decide)
  simp only [labels?, entry, hversion, hmessage, bind, Option.bind, pure]

/-- An envelope is read back from its item. -/
theorem ofItem?_item {e : Envelope} (hversion : e.version < 256) :
    ofItem? e.item = some e := by
  have hentries : e.item.untagged.entries? =
      some [entry "version" (natItem e.version), entry "message" (messageItem e.message)] := rfl
  have hinteger : (natItem e.version).integer? = some e.version := rfl
  simp [ofItem?, hentries, labels?_entries, isKnown, labelled?, nameBytes_inj, single?,
    hinteger, hversion]

/-- An envelope is read off the front of a byte string, whatever follows it. -/
theorem ofBytes?_append {e : Envelope} (hversion : e.version < 256) (h : e.message.Sized)
    (suffix : Bytes) : ofBytes? (e.bytes ++ suffix) = some e := by
  have hword : e.version ≤ Word.max := by
    simp only [Word.max]
    omega
  rw [ofBytes?, bytes, read_append (readsBack_item hword h)]
  exact ofItem?_item hversion

end Envelope

namespace Message

/-- Nothing in a message is longer than its bytes. -/
theorem sized_of_length_bytes {version : Nat} {m : Message}
    (hbytes : (Envelope.mk version m).bytes.length ≤ Word.max)
    (hwords : ∀ u, m = .update u →
      u.edit.pos ≤ Word.max ∧ u.edit.del ≤ Word.max ∧ u.sent ≤ Word.max ∧ u.seen ≤ Word.max) :
    m.Sized := by
  cases m with
  | start offer =>
      simp only [Envelope.bytes, Envelope.item, Envelope.mapItem, Envelope.messageItem,
        Envelope.entry, Envelope.textItem, Item.encode, Item.encodeChunk, Item.encodeEntries,
        Item.encodeEntry, List.length_append] at hbytes
      refine ⟨?_, ?_, ?_⟩ <;> omega
  | update u =>
      obtain ⟨hpos, hdel, hsent, hseen⟩ := hwords u rfl
      simp only [Envelope.bytes, Envelope.item, Envelope.mapItem, Envelope.messageItem,
        Envelope.entry, Envelope.textItem, Item.encode, Item.encodeChunk, Item.encodeEntries,
        Item.encodeEntry, List.length_append] at hbytes
      refine ⟨hpos, hdel, ?_, hsent, hseen⟩
      omega
  | stop => trivial

theorem encode_eq_ok_iff {limits : Limits} {m : Message} {bytes : Bytes} :
    m.encode limits = .ok bytes ↔
      m.check limits = .ok () ∧ (Envelope.mk protocolVersion m).bytes = bytes ∧
        bytes.length ≤ limits.messageBytes := by
  unfold encode
  cases m.check limits with
  | error b => simp
  | ok _ =>
      by_cases hlen : limits.messageBytes < (Envelope.mk protocolVersion m).bytes.length
      · simp only [hlen, if_true, reduceCtorEq, true_and, false_iff, not_and]
        rintro rfl
        exact Nat.not_le_of_lt hlen
      · simp only [hlen, if_false, Except.ok.injEq, true_and]
        constructor
        · rintro rfl
          exact ⟨rfl, Nat.le_of_not_lt hlen⟩
        · exact And.left

theorem range_le_of_check {limits : Limits} {u : Update}
    (h : check limits (.update u) = .ok ()) : u.edit.pos + u.edit.del ≤ Word.max := by
  simp only [check] at h
  split at h
  · cases h
  · next hrange => exact Nat.le_of_not_lt hrange

/-- Encoding and decoding with the same limits gives the message back. -/
theorem decode_of_encode {limits : Limits} {m : Message} {bytes : Bytes}
    (hlimits : limits.messageBytes ≤ Word.max) (h : m.encode limits = .ok bytes)
    (hwords : ∀ u, m = .update u → u.sent ≤ Word.max ∧ u.seen ≤ Word.max) :
    Message.decode limits bytes = .ok m := by
  obtain ⟨hcheck, rfl, hlen⟩ := encode_eq_ok_iff.1 h
  have hsized : m.Sized := by
    refine sized_of_length_bytes (Nat.le_trans hlen hlimits) ?_
    rintro u rfl
    have hrange := range_le_of_check hcheck
    exact ⟨by omega, by omega, hwords u rfl⟩
  have hread := Envelope.ofBytes?_append (e := ⟨protocolVersion, m⟩)
    (show protocolVersion < 256 by decide) hsized []
  rw [List.append_nil] at hread
  simp [decode, Nat.not_lt_of_le hlen, hread, hcheck]

/-- A party that could send an offer can also say that it stops. -/
theorem length_bytes_stop_le (version : Nat) (offer : Start) :
    (Envelope.mk version .stop).bytes.length ≤
      (Envelope.mk version (.start offer)).bytes.length := by
  have hstop : (Envelope.messageItem .stop).encode.length = 11 := by decide
  have hkind : (Item.encodeEntry (Envelope.entry "kind"
      (Envelope.textItem "start".toList))).length = 11 := by decide
  have hstart : 11 ≤ (Envelope.messageItem (.start offer)).encode.length := by
    rw [Envelope.messageItem, Envelope.mapItem, Item.encode, Item.encodeEntries,
      List.length_append, List.length_append, hkind]
    omega
  simp only [Envelope.bytes, Envelope.item, Envelope.mapItem, Envelope.entry, Item.encode,
    Item.encodeEntries, Item.encodeEntry, List.length_append, List.length_cons, hstop]
  omega

/-- A message that says that its sender stops keeps to limits that an offer kept to. -/
theorem encode_stop_of_start {limits : Limits} {offer : Start} {bytes : Bytes}
    (h : (Message.start offer).encode limits = .ok bytes) :
    Message.stop.encode limits = .ok (Envelope.mk protocolVersion .stop).bytes := by
  obtain ⟨-, rfl, hlen⟩ := encode_eq_ok_iff.1 h
  exact encode_eq_ok_iff.2
    ⟨rfl, rfl, Nat.le_trans (length_bytes_stop_le protocolVersion offer) hlen⟩

end Message

end PairEdit
