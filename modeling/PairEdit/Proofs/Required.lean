import PairEdit.Proofs.Spelling
import PairEdit.Proofs.Truncation

/-!
# Required fields

A map may have entries that nobody asked for, and its entries come in any order.  What it
may not do is leave out a field that is asked for, or have it twice: then two readers could
take different things from the same bytes.

Each layer of an envelope looks for its fields by their names and takes the value of one
only if there is exactly one entry with the name.  So an envelope that is read has each of
its fields once, and the message in it has its kind once and each field of that kind once.
The values do not matter for this, however they are spelled.
-/

namespace PairEdit

open Cbor

namespace Cbor

/-- An item is read from its own bytes, or nothing is. -/
theorem eq_of_read_encode {depth : Nat} {i i' : Item} {rest : Bytes} (h : i.Legible)
    (hread : read depth i.encode = some (i', rest)) : i' = i := by
  have hdeep : ReadsBack (max depth i.levels) i :=
    readsBack_of_legible h (Nat.le_max_right depth i.levels)
  have hitself := hdeep i.encode.length (Nat.le_refl _) []
  have hsame := extends_readWithin (Nat.le_refl i.encode.length)
    (Nat.le_max_left depth i.levels) hread []
  rw [hitself] at hsame
  exact (congrArg Prod.fst (Option.some.inj hsame)).symm

end Cbor

namespace Envelope

/-! ## Fields by their names -/

/-- The fields that a message of a kind has beside the kind. -/
def required (kind : String) : List String :=
  if kind = "start" then
    ["sender_id", "sender_name", "receiver_id", "document_text", "file_name"]
  else if kind = "update" then ["position", "delete_len", "inserted_text", "sent", "seen"]
  else []

/-- How many entries have a name. -/
def occurrences (name : String) (entries : List (Item × Item)) : Nat :=
  entries.countP (isNamed name)

/-- Every key is a text, in one piece or in several. -/
def TextKeys (entries : List (Item × Item)) : Prop :=
  ∀ e ∈ entries, ∃ name, SpellsText name e.1

/-- The entry says which kind of message it stands in. -/
def Tells (kind : String) (e : Item × Item) : Prop :=
  isNamed "kind" e = true ∧ e.2.untagged.string? = some (nameBytes kind)

/-- A field that the entries of a message need is missing, or is there more than once. -/
inductive Deficient (entries : List (Item × Item)) : Prop
  /-- The kind itself. -/
  | kind (h : occurrences "kind" entries ≠ 1)
  /-- A field of the kind that an entry tells. -/
  | field (kind name : String) (e : Item × Item) (hmem : e ∈ entries) (htells : Tells kind e)
      (hname : name ∈ required kind) (h : occurrences name entries ≠ 1)

variable {e : Item × Item} {entries : List (Item × Item)} {i : Item} {name : String}

theorem string?_of_spellsText {t : Text} (h : SpellsText t i) :
    ∃ content, i.string? = some content ∧ i.untagged = i ∧ i.nat? = none := by
  rcases h with ⟨w, rfl⟩ | ⟨chunks, rfl, -⟩
  · exact ⟨_, rfl, rfl, rfl⟩
  · exact ⟨_, rfl, rfl, rfl⟩

theorem string?_of_label? {label : Bytes} (h : label? i = some label) :
    i.untagged.string? = some label := by
  unfold label? at h
  split at h
  · next hi =>
      rw [hi]
      dsimp only at h
      split at h
      · exact h
      · cases h
  · next hi =>
      rw [hi]
      split at h
      · exact h
      · cases h
  · cases h

/-- The entry that is found by its name is the only one of that name. -/
theorem occurrences_of_single? {value : Item}
    (h : single? ((entries.filter (isNamed name)).map Prod.snd) = some value) :
    occurrences name entries = 1 ∧ ∀ e ∈ entries, isNamed name e = true → e.2 = value := by
  obtain ⟨found, hfound, hvalue⟩ := List.map_eq_singleton_iff.1 (single?_eq_some_iff.1 h)
  constructor
  · rw [occurrences, List.countP_eq_length_filter, hfound]
    rfl
  · intro e he hname
    have hmem : e ∈ entries.filter (isNamed name) := List.mem_filter.2 ⟨he, hname⟩
    rw [hfound, List.mem_singleton] at hmem
    rw [hmem, hvalue]

/-! ## Envelopes -/

theorem eq_map_of_labels? {labels : List (Bytes × Item)} (hkeys : TextKeys entries)
    (h : labels? entries = some labels) : labels = entries.map fun e => (nameOf e, e.2) := by
  induction entries generalizing labels with
  | nil =>
      cases h
      rfl
  | cons e rest ih =>
      obtain ⟨label, hlabel, h⟩ := Option.bind_eq_some_iff.1 h
      obtain ⟨others, hothers, h⟩ := Option.bind_eq_some_iff.1 h
      cases h
      obtain ⟨⟨t, ht⟩, hrest⟩ := List.forall_mem_cons.1 hkeys
      obtain ⟨content, -, huntagged, -⟩ := string?_of_spellsText ht
      have hcontent := string?_of_label? hlabel
      rw [huntagged] at hcontent
      have hname : nameOf e = label := by
        rw [nameOf, hcontent]
        rfl
      rw [List.map_cons, hname, ih hrest hothers]

/-- An entry that is found by its label is the only one of that name. -/
theorem occurrences_of_labelled? {value : Item}
    (h : labelled? (entries.map fun e => (nameOf e, e.2)) name = some value) :
    occurrences name entries = 1 ∧ ∀ e ∈ entries, isNamed name e = true → e.2 = value := by
  rw [labelled?_map_eq] at h
  exact occurrences_of_single? h

/-! ## Messages -/

theorem eq_map_of_fields? {fields : Fields} (hkeys : TextKeys entries)
    (h : fields? entries = some fields) :
    fields = entries.map fun e => (.name (nameOf e), e.2) := by
  induction entries generalizing fields with
  | nil =>
      cases h
      rfl
  | cons e rest ih =>
      obtain ⟨key, hkey, h⟩ := Option.bind_eq_some_iff.1 h
      obtain ⟨others, hothers, h⟩ := Option.bind_eq_some_iff.1 h
      cases h
      obtain ⟨⟨t, ht⟩, hrest⟩ := List.forall_mem_cons.1 hkeys
      obtain ⟨content, hcontent, -, hnat⟩ := string?_of_spellsText ht
      rw [key?, hnat, hcontent] at hkey
      cases hkey
      rw [List.map_cons, nameOf, hcontent, ih hrest hothers]
      rfl

theorem occurrences_of_value? {index : Option Nat} {value : Item}
    (h : Fields.value? (entries.map fun e => (.name (nameOf e), e.2)) name index = some value) :
    occurrences name entries = 1 := by
  rw [value?_map_eq] at h
  exact (occurrences_of_single? h).1

/-- A message that is read of its fields has each field of its kind once. -/
theorem occurrences_of_ofFields? {kind : String} {m : Message} (hkeys : TextKeys entries)
    (h : ofFields? (nameBytes kind) entries = some m) (hname : name ∈ required kind) :
    occurrences name entries = 1 := by
  unfold required at hname
  split at hname
  · next hstart =>
      subst hstart
      rw [ofFields?, if_neg (by simp [nameBytes_inj]), if_pos rfl] at h
      obtain ⟨fields, hfields, h⟩ := Option.bind_eq_some_iff.1 h
      obtain ⟨senderId, hsenderId, h⟩ := Option.bind_eq_some_iff.1 h
      obtain ⟨senderName, hsenderName, h⟩ := Option.bind_eq_some_iff.1 h
      obtain ⟨receiverId, hreceiverId, h⟩ := Option.bind_eq_some_iff.1 h
      obtain ⟨documentText, hdocumentText, h⟩ := Option.bind_eq_some_iff.1 h
      obtain ⟨fileName, hfileName, h⟩ := Option.bind_eq_some_iff.1 h
      obtain rfl := eq_map_of_fields? hkeys hfields
      simp only [List.mem_cons, List.not_mem_nil, or_false] at hname
      rcases hname with rfl | rfl | rfl | rfl | rfl
      · exact occurrences_of_value? hsenderId
      · exact occurrences_of_value? hsenderName
      · exact occurrences_of_value? hreceiverId
      · exact occurrences_of_value? hdocumentText
      · exact occurrences_of_value? hfileName
  · split at hname
    · next hupdate =>
        subst hupdate
        rw [ofFields?, if_neg (by simp [nameBytes_inj]), if_neg (by simp [nameBytes_inj]),
          if_pos rfl] at h
        obtain ⟨fields, hfields, h⟩ := Option.bind_eq_some_iff.1 h
        obtain ⟨pos, hpos, h⟩ := Option.bind_eq_some_iff.1 h
        obtain ⟨_, -, h⟩ := Option.bind_eq_some_iff.1 h
        obtain ⟨del, hdel, h⟩ := Option.bind_eq_some_iff.1 h
        obtain ⟨_, -, h⟩ := Option.bind_eq_some_iff.1 h
        obtain ⟨ins, hins, h⟩ := Option.bind_eq_some_iff.1 h
        obtain ⟨_, -, h⟩ := Option.bind_eq_some_iff.1 h
        obtain ⟨sent, hsent, h⟩ := Option.bind_eq_some_iff.1 h
        obtain ⟨_, -, h⟩ := Option.bind_eq_some_iff.1 h
        obtain ⟨seen, hseen, h⟩ := Option.bind_eq_some_iff.1 h
        obtain rfl := eq_map_of_fields? hkeys hfields
        simp only [List.mem_cons, List.not_mem_nil, or_false] at hname
        rcases hname with rfl | rfl | rfl | rfl | rfl
        · exact occurrences_of_value? hpos
        · exact occurrences_of_value? hdel
        · exact occurrences_of_value? hins
        · exact occurrences_of_value? hsent
        · exact occurrences_of_value? hseen
    · cases hname

theorem ne_kind_of_mem_required {kind : String} (hname : name ∈ required kind) :
    name ≠ "kind" := by
  rintro rfl
  unfold required at hname
  split at hname
  · simp at hname
  · split at hname
    · simp at hname
    · cases hname

/-- The entries that do not name the kind have as many of every other name as all of them. -/
theorem occurrences_filter_not_isKind (hne : name ≠ "kind") :
    occurrences name (entries.filter fun e => !isKind e) = occurrences name entries := by
  rw [occurrences, occurrences, List.countP_filter]
  refine List.countP_congr fun e _ => ?_
  rw [isKind_eq, isNamed, isNamed]
  have hother : nameOf e = nameBytes name → nameOf e ≠ nameBytes "kind" := by
    rintro heq hkind
    exact hne (nameBytes_inj.1 (heq.symm.trans hkind))
  simpa using hother

/-- A message is not read of entries that are deficient. -/
theorem message?_of_deficient (hentries : i.entries? = some entries) (hkeys : TextKeys entries)
    (hdeficient : Deficient entries) : message? i = none := by
  rw [Option.eq_none_iff_forall_ne_some]
  intro m hm
  rw [message?, hentries] at hm
  obtain ⟨kindItem, hkind, hm⟩ := Option.bind_eq_some_iff.1 hm
  obtain ⟨label, hlabel, hm⟩ := Option.bind_eq_some_iff.1 hm
  dsimp only at hm
  split at hm
  · rw [funext isKind_eq] at hkind
    obtain ⟨hcount, honly⟩ := occurrences_of_single? hkind
    cases hdeficient with
    | kind h => exact h hcount
    | field kind name e hmem htells hname h =>
        have hkindItem : e.2 = kindItem := honly e hmem htells.1
        have hsame : label = nameBytes kind := by
          have hcontent := string?_of_label? hlabel
          rw [← hkindItem, htells.2] at hcontent
          exact (Option.some.inj hcontent).symm
        rw [hsame] at hm
        have hothers : TextKeys (entries.filter fun e => !isKind e) := fun e he =>
          hkeys e (List.mem_filter.1 he).1
        have hone := occurrences_of_ofFields? hothers hm hname
        rw [occurrences_filter_not_isKind (ne_kind_of_mem_required hname)] at hone
        exact h hone
  · cases hm

/-- A field of an envelope is missing or there more than once, or this is so of a field of the
message in it. -/
inductive Lacking (entries : List (Item × Item)) : Prop
  | version (h : occurrences "version" entries ≠ 1)
  | message (h : occurrences "message" entries ≠ 1)
  /-- The message is a map of given or of open length. -/
  | inside (e : Item × Item) (inner : List (Item × Item)) (hmem : e ∈ entries)
      (hname : isNamed "message" e = true) (hinner : e.2.entries? = some inner)
      (hkeys : TextKeys inner) (h : Deficient inner)

theorem ofItem?_of_lacking (hentries : i.untagged.entries? = some entries)
    (hkeys : TextKeys entries) (hlacking : Lacking entries) : ofItem? i = none := by
  rw [Option.eq_none_iff_forall_ne_some]
  intro envelope h
  obtain ⟨found, hfound, h⟩ := Option.bind_eq_some_iff.1 h
  obtain rfl : entries = found := Option.some.inj (hentries.symm.trans hfound)
  obtain ⟨labels, hlabels, h⟩ := Option.bind_eq_some_iff.1 h
  obtain rfl := eq_map_of_labels? hkeys hlabels
  split at h
  · obtain ⟨versionItem, hversion, h⟩ := Option.bind_eq_some_iff.1 h
    obtain ⟨version, -, h⟩ := Option.bind_eq_some_iff.1 h
    obtain ⟨messageItem, hmessage, h⟩ := Option.bind_eq_some_iff.1 h
    obtain ⟨m, hm, h⟩ := Option.bind_eq_some_iff.1 h
    cases hlacking with
    | version hcount => exact hcount (occurrences_of_labelled? hversion).1
    | message hcount => exact hcount (occurrences_of_labelled? hmessage).1
    | inside e inner hmem hname hinner hkeys hdeficient =>
        rw [← (occurrences_of_labelled? hmessage).2 e hmem hname,
          message?_of_deficient hinner hkeys hdeficient] at hm
        cases hm
  · cases h

end Envelope

namespace Message

open Envelope

/-- An envelope in which a field is missing or repeated, or in whose message one is, is never
decoded to anything, whatever the order of the entries, their values and the limits. -/
theorem decode_of_lacking {limits : Limits} {i : Item} {entries : List (Item × Item)}
    (hentries : i.untagged.entries? = some entries) (hkeys : TextKeys entries)
    (hlacking : Lacking entries) (hlegible : i.Legible)
    (hlen : i.encode.length ≤ limits.messageBytes) :
    Message.decode limits i.encode = .error .decoding := by
  have hread : ofBytes? i.encode = none := by
    rw [ofBytes?]
    cases hitem : Cbor.read maxDepth i.encode with
    | none => rfl
    | some found =>
        have hsame : found.1 = i := eq_of_read_encode hlegible hitem
        have hnone : ofItem? found.1 = none :=
          hsame ▸ ofItem?_of_lacking hentries hkeys hlacking
        exact hnone
  rw [Message.decode, if_neg (Nat.not_lt.2 hlen), hread]

/-- An insertion that says twice how many edits its author has sent, once with the name in
pieces, and an entry that is passed over. -/
def restated : List (Item × Item) := [
  (.text .inline "sent".toList, .unsigned .inline 1),
  (.text .inline "kind".toList, .text .one "update".toList),
  (.text .inline "position".toList, .unsigned .inline 0),
  (.text .two "delete_len".toList, .unsigned .inline 0),
  (.text .inline "note".toList, .float .two 0),
  (.text .inline "inserted_text".toList, .text .inline "a".toList),
  (.text .inline "seen".toList, .unsigned .inline 0),
  (.textChunks [(.inline, "se".toList), (.one, "nt".toList)], .unsigned .two 1)]

/-- The insertion in its envelope is not decoded; nor is a stop that says nothing of the
version, nor a message without a kind. -/
theorem decode_of_lacking_restated :
    Message.decode .usual (Item.openMap [
      (.text .inline "message".toList, .openMap restated),
      (.text .inline "version".toList, .unsigned .inline 0)]).encode = .error .decoding ∧
    Message.decode .usual (Item.map .inline [
      (.text .inline "message".toList,
        .map .inline [(.text .inline "kind".toList, .text .inline "stop".toList)])]).encode =
      .error .decoding ∧
    Message.decode .usual (Item.map .inline [
      (.text .inline "version".toList, .unsigned .inline 0),
      (.text .inline "message".toList, .map .one [])]).encode = .error .decoding := by
  refine ⟨decode_of_lacking rfl ?_ ?_ (by decide +kernel) (by decide +kernel),
    decode_of_lacking rfl ?_ (.version ?_) (by decide +kernel) (by decide +kernel),
    decode_of_lacking rfl ?_ ?_ (by decide +kernel) (by decide +kernel)⟩
  · simp [TextKeys, SpellsText, SpellsName]
  · refine .inside _ restated List.mem_cons_self rfl rfl ?_
      (.field "update" "sent" _ (List.mem_cons_of_mem _ List.mem_cons_self) ⟨rfl, rfl⟩ ?_ ?_)
    · simp [restated, TextKeys, SpellsText, SpellsName]
    · simp [required]
    · decide
  · simp [TextKeys, SpellsText, SpellsName]
  · decide
  · simp [TextKeys, SpellsText, SpellsName]
  · exact .inside _ [] (List.mem_cons_of_mem _ List.mem_cons_self) rfl rfl
      (by simp [TextKeys]) (.kind (by decide))

end Message

end PairEdit
