import PairEdit.Proofs.ReadBack

/-!
# Every legible item is read back

`ReadBack` reads the items back that are written here.  A peer may write others: strings in
pieces, numbers wider than they have to be, tags, floating-point numbers.  An item is legible
when every head in it is: its number fits its width, and a simple value is a known one.  Each
legible item is read back from its bytes, whatever follows them, at every depth that its
arrays and maps allow.
-/

namespace PairEdit.Cbor

namespace Item

/-- Whether the heads of an item and of its pieces are ones that can be read. -/
def isLegible : Item → Bool
  | unsigned w n => decide (n < w.bound)
  | negative w n => decide (n < w.bound)
  | bytes w content => decide (content.length < w.bound)
  | byteChunks chunks => chunks.all fun c => decide (c.2.length < c.1.bound)
  | text w content => decide ((Utf8.encode content).length < w.bound)
  | textChunks chunks => chunks.all fun c => decide ((Utf8.encode c.2).length < c.1.bound)
  | array w items => decide (items.length < w.bound)
  | openArray _ => true
  | map w entries => decide (entries.length < w.bound)
  | openMap _ => true
  | tagged w tag _ => decide (tag < w.bound)
  | simple w n => (w == .inline || w == .one) && decide (20 ≤ n ∧ n ≤ 23)
  | float w bits => !(w == .inline || w == .one) && decide (bits < w.bound)

/-- Every head in the item can be read. -/
def Legible (i : Item) : Prop := i.everywhere isLegible = true

instance (i : Item) : Decidable i.Legible := inferInstanceAs (Decidable (_ = true))

variable {holds : Item → Bool} {items : List Item} {entries : List (Item × Item)} {n : Nat}

theorem everywhereInEntries_iff :
    everywhereInEntries holds entries = true ↔
      ∀ e ∈ entries, e.1.everywhere holds = true ∧ e.2.everywhere holds = true := by
  induction entries with
  | nil => simp [everywhereInEntries]
  | cons entry rest ih =>
      rw [everywhereInEntries, everywhereInEntry, Bool.and_eq_true, Bool.and_eq_true, ih,
        List.forall_mem_cons]

mutual

/-- What holds everywhere in an item may be weakened. -/
theorem everywhere_mono {holds' : Item → Bool} (hmono : ∀ i, holds i = true → holds' i = true)
    (i : Item) (h : i.everywhere holds = true) : i.everywhere holds' = true := by
  cases i with
  | array w items | openArray items =>
      obtain ⟨hhere, hitems⟩ := Bool.and_eq_true_iff.1 h
      exact Bool.and_eq_true_iff.2 ⟨hmono _ hhere, everywhereIn_mono hmono items hitems⟩
  | map w entries | openMap entries =>
      obtain ⟨hhere, hentries⟩ := Bool.and_eq_true_iff.1 h
      exact Bool.and_eq_true_iff.2 ⟨hmono _ hhere, everywhereInEntries_mono hmono entries hentries⟩
  | tagged w tag item =>
      obtain ⟨hhere, hitem⟩ := Bool.and_eq_true_iff.1 h
      exact Bool.and_eq_true_iff.2 ⟨hmono _ hhere, everywhere_mono hmono item hitem⟩
  | _ => exact hmono _ h

/-- `everywhere_mono` in all items. -/
theorem everywhereIn_mono {holds' : Item → Bool} (hmono : ∀ i, holds i = true → holds' i = true)
    (items : List Item) (h : everywhereIn holds items = true) :
    everywhereIn holds' items = true := by
  cases items with
  | nil => rfl
  | cons item rest =>
      obtain ⟨hitem, hrest⟩ := Bool.and_eq_true_iff.1 h
      exact Bool.and_eq_true_iff.2
        ⟨everywhere_mono hmono item hitem, everywhereIn_mono hmono rest hrest⟩

/-- `everywhere_mono` in all keys and values. -/
theorem everywhereInEntries_mono {holds' : Item → Bool}
    (hmono : ∀ i, holds i = true → holds' i = true) (entries : List (Item × Item))
    (h : everywhereInEntries holds entries = true) : everywhereInEntries holds' entries = true := by
  cases entries with
  | nil => rfl
  | cons entry rest =>
      obtain ⟨hentry, hrest⟩ := Bool.and_eq_true_iff.1 h
      exact Bool.and_eq_true_iff.2
        ⟨everywhereInEntry_mono hmono entry hentry, everywhereInEntries_mono hmono rest hrest⟩

/-- `everywhere_mono` in a key and its value. -/
theorem everywhereInEntry_mono {holds' : Item → Bool}
    (hmono : ∀ i, holds i = true → holds' i = true) (entry : Item × Item)
    (h : everywhereInEntry holds entry = true) : everywhereInEntry holds' entry = true := by
  obtain ⟨key, value⟩ := entry
  obtain ⟨hkey, hvalue⟩ := Bool.and_eq_true_iff.1 h
  exact Bool.and_eq_true_iff.2 ⟨everywhere_mono hmono key hkey, everywhere_mono hmono value hvalue⟩

end

theorem levelsEntries_le_iff :
    levelsEntries entries ≤ n ↔ ∀ e ∈ entries, e.1.levels ≤ n ∧ e.2.levels ≤ n := by
  induction entries with
  | nil => simp [levelsEntries]
  | cons entry rest ih =>
      rw [levelsEntries, levelsEntry, Nat.max_le, Nat.max_le, ih, List.forall_mem_cons]

/-- A tag takes no level away. -/
theorem levels_le_tagged (w : Width) (tag : Nat) (item : Item) :
    item.levels ≤ (tagged w tag item).levels := by
  rw [levels]
  split
  · next hbig =>
      cases item with
      | bytes => exact Nat.le_refl _
      | _ => cases hbig
  · exact Nat.le_succ _

end Item

/-! ## Strings in pieces -/

theorem readChunks_append {fuel : Nat} (major : Major) (read chunks : List (Width × Bytes))
    (rest : Bytes) (h : ∀ c ∈ chunks, c.2.length < c.1.bound) (hfuel : chunks.length < fuel) :
    readChunks major read 1 fuel
        (chunks.flatMap (fun c => Item.encodeChunk major c.1 c.2) ++ breakByte :: rest) =
      some (read.reverse ++ chunks, rest) := by
  induction chunks generalizing read fuel with
  | nil =>
      obtain ⟨fuel, rfl⟩ := Nat.exists_eq_succ_of_ne_zero (Nat.ne_zero_of_lt hfuel)
      have hbreak : readHead (breakByte :: rest) = some (.other, .indefinite, rest) :=
        readHead_openHead_append .other rest
      simp [readChunks, hbreak]
  | cons c chunks ih =>
      obtain ⟨fuel, rfl⟩ := Nat.exists_eq_succ_of_ne_zero (Nat.ne_zero_of_lt hfuel)
      have hhead := readHead_head_append major (h c List.mem_cons_self)
      have htail := ih (c :: read) (fun c' hc' => h c' (List.mem_cons_of_mem _ hc'))
        (Nat.lt_of_succ_lt_succ hfuel)
      rw [List.flatMap_cons, Item.encodeChunk, List.append_assoc, List.append_assoc, readChunks,
        hhead]
      simp only [bind, Option.bind, if_true, Sequence.cut?_eq]
      simpa using htail

theorem decodeChunks_map_encode (chunks : List (Width × Text)) :
    decodeChunks (chunks.map fun c => (c.1, Utf8.encode c.2)) = some chunks := by
  induction chunks with
  | nil => rfl
  | cons c chunks ih => simp [decodeChunks, ih]

namespace ReadsBack

variable {depth n : Nat} {w : Width}

theorem negative (h : n < w.bound) : ReadsBack depth (.negative w n) := by
  refine of_readItem fun fuel nested rest => ?_
  simp only [Item.encode, readItem, readHead_head_append _ h, bind, Option.bind, readBody]

theorem bytes {content : Bytes} (h : content.length < w.bound) :
    ReadsBack depth (.bytes w content) := by
  refine of_readItem fun fuel nested rest => ?_
  simp only [Item.encode, Item.encodeChunk, List.append_assoc, readItem,
    readHead_head_append _ h, bind, Option.bind, readBody, Sequence.cut?_eq]
  simp

theorem simple (hw : w = .inline ∨ w = .one) (hn : 20 ≤ n ∧ n ≤ 23) :
    ReadsBack depth (.simple w n) := by
  have hbound : n < w.bound := by
    rcases hw with rfl | rfl <;> simp only [Width.bound] <;> omega
  refine of_readItem fun fuel nested rest => ?_
  simp only [Item.encode, readItem, readHead_head_append _ hbound, bind, Option.bind]
  rcases hw with rfl | rfl
  · simp [readBody, hn]
  · simp [readBody, hn]

theorem float (hw : w ≠ .inline ∧ w ≠ .one) (h : n < w.bound) :
    ReadsBack depth (.float w n) := by
  refine of_readItem fun fuel nested rest => ?_
  simp only [Item.encode, readItem, readHead_head_append _ h, bind, Option.bind]
  cases w with
  | inline => exact absurd rfl hw.1
  | one => exact absurd rfl hw.2
  | two | four | eight => rfl

/-- With fuel for its bytes a string of given pieces has fuel for the pieces. -/
theorem length_chunks_lt {α : Type} {enc : α → Bytes} {chunks : List α} {fuel : Nat}
    (major : Major) (hpos : ∀ c, 0 < (enc c).length)
    (hfuel : (openHead major ++ (chunks.flatMap enc ++ [breakByte])).length ≤ fuel) :
    chunks.length < fuel := by
  have hcount := length_le_length_flatMap_of_pos hpos chunks
  rw [List.length_append, List.length_append, List.length_singleton] at hfuel
  omega

theorem byteChunks {chunks : List (Width × Bytes)} (h : ∀ c ∈ chunks, c.2.length < c.1.bound) :
    ReadsBack depth (.byteChunks chunks) := by
  intro fuel hfuel rest
  have hchunks := length_chunks_lt .bytes (fun c => by simp [Item.encodeChunk, head]) hfuel
  have hread := readChunks_append .bytes [] chunks rest h hchunks
  cases depth <;>
    simp [Item.encode, readWithin, readItem, readHead_openHead_append, readBody, hread]

theorem textChunks {chunks : List (Width × Text)}
    (h : ∀ c ∈ chunks, (Utf8.encode c.2).length < c.1.bound) :
    ReadsBack depth (.textChunks chunks) := by
  intro fuel hfuel rest
  have hchunks := length_chunks_lt .text (fun c => by simp [Item.encodeChunk, head]) hfuel
  have hread := readChunks_append .text [] (chunks.map fun c => (c.1, Utf8.encode c.2)) rest
    (List.forall_mem_map.2 h) (by rwa [List.length_map] : _ < fuel)
  rw [List.flatMap_map] at hread
  cases depth <;>
    simp [Item.encode, readWithin, readItem, readHead_openHead_append, readBody, hread,
      decodeChunks_map_encode]

theorem openArray {items : List Item} (h : ∀ i ∈ items, ReadsBack depth i) :
    ReadsBack (depth + 1) (.openArray items) := by
  intro fuel hfuel rest
  rw [Item.encode, List.length_append, List.length_append, Item.encodeAll_eq_flatMap,
    List.length_singleton] at hfuel
  have hitems : ∀ i ∈ items, Reads (readWithin fuel depth) i.encode i := by
    intro i hi
    have := length_le_length_flatMap Item.encode hi
    exact h i hi fuel (by omega)
  have hcount := length_le_length_flatMap_of_pos Item.length_encode_pos items
  have hread := readUntilBreak_append [] items rest (stopsAtBreak_readWithin fuel depth) hitems
    (by omega : _ < fuel)
  simp only [Item.encode, List.append_assoc, List.singleton_append, readWithin, readItem,
    readHead_openHead_append, bind, Option.bind, readBody, Item.encodeAll_eq_flatMap, hread]
  rfl

end ReadsBack

/-! ## Tags -/

namespace Item

/-- An item under tags, the innermost one first. -/
def retag (tags : List (Width × Nat)) (i : Item) : Item :=
  tags.foldl (fun item tag => .tagged tag.1 tag.2 item) i

theorem lt_bound_of_simple {w : Width} {n : Nat} (h : (simple w n).Legible) : n < w.bound := by
  simp only [Legible, everywhere, isLegible, Bool.and_eq_true, Bool.or_eq_true, beq_iff_eq,
    decide_eq_true_eq] at h
  rcases h.1 with rfl | rfl <;> simp only [Width.bound] <;> omega

/-- An item without a tag does not start with the head of one. -/
theorem readHead_encode_untagged {i : Item} (h : i.Legible) (rest : Bytes) :
    ∃ major argument after, major ≠ .tag ∧
      readHead (i.untagged.encode ++ rest) = some (major, argument, after) := by
  have hhead : ∀ (major : Major) (w : Width) (n : Nat) (body : Bytes), major ≠ .tag →
      n < w.bound → ∃ major' argument after, major' ≠ .tag ∧
        readHead (head major w n ++ body ++ rest) = some (major', argument, after) := by
    intro major w n body hmajor hn
    exact ⟨major, .number w n, body ++ rest, hmajor, by
      rw [List.append_assoc, readHead_head_append _ hn]⟩
  have hopen : ∀ (major : Major) (body : Bytes), major ≠ .tag →
      ∃ major' argument after, major' ≠ .tag ∧
        readHead (openHead major ++ body ++ rest) = some (major', argument, after) := by
    intro major body hmajor
    exact ⟨major, .indefinite, body ++ rest, hmajor, by
      rw [List.append_assoc, readHead_openHead_append]⟩
  fun_induction untagged i with
  | case1 w tag item ih =>
      simp only [Legible, everywhere, Bool.and_eq_true] at h
      exact ih h.2
  | case2 i hi =>
      cases i with
      | tagged w tag item => exact (hi w tag item rfl).elim
      | unsigned w n =>
          simpa [encode] using hhead .unsigned w n [] (by decide) (of_decide_eq_true h)
      | negative w n =>
          simpa [encode] using hhead .negative w n [] (by decide) (of_decide_eq_true h)
      | bytes w content =>
          exact hhead .bytes w content.length content (by decide) (of_decide_eq_true h)
      | byteChunks => exact hopen .bytes _ (by decide)
      | text w content => exact hhead .text w _ _ (by decide) (of_decide_eq_true h)
      | textChunks => exact hopen .text _ (by decide)
      | array w items =>
          exact hhead .array w _ _ (by decide) (of_decide_eq_true (Bool.and_eq_true_iff.1 h).1)
      | openArray => exact hopen .array _ (by decide)
      | map w entries =>
          exact hhead .map w _ _ (by decide) (of_decide_eq_true (Bool.and_eq_true_iff.1 h).1)
      | openMap => exact hopen .map _ (by decide)
      | simple w n =>
          simpa [encode] using hhead .other w n [] (by decide) (lt_bound_of_simple h)
      | float w bits =>
          simpa [encode] using hhead .other w bits [] (by decide)
            (of_decide_eq_true (Bool.and_eq_true_iff.1 h).2)

/-- The tags in front of an item are read up to the item itself. -/
theorem readTags_encode {i : Item} (h : i.Legible) (tags : List (Width × Nat)) {fuel : Nat}
    (hfuel : i.encode.length ≤ fuel) (rest : Bytes) :
    ∃ tags' major argument after,
      readTags tags fuel (i.encode ++ rest) = some (tags', major, argument, after) ∧
      readHead (i.untagged.encode ++ rest) = some (major, argument, after) ∧
      major ≠ .tag ∧ retag tags' i.untagged = retag tags i := by
  fun_induction untagged i generalizing tags fuel with
  | case1 w tag item ih =>
      simp only [Legible, everywhere, isLegible, Bool.and_eq_true, decide_eq_true_eq] at h
      rw [encode, List.length_append] at hfuel
      obtain ⟨fuel, rfl⟩ : ∃ f, fuel = f + 1 := Nat.exists_eq_succ_of_ne_zero (by
        simp only [head, List.length_cons] at hfuel
        omega)
      have hinner : item.encode.length ≤ fuel := by
        simp only [head, List.length_cons] at hfuel
        omega
      obtain ⟨tags', major, argument, after, htags, hhead, hmajor, hretag⟩ :=
        ih h.2 ((w, tag) :: tags) hinner
      refine ⟨tags', major, argument, after, ?_, hhead, hmajor, hretag⟩
      simpa [encode, readTags, readHead_head_append _ h.1] using htags
  | case2 i hi =>
      obtain ⟨fuel, rfl⟩ : ∃ f, fuel = f + 1 :=
        Nat.exists_eq_succ_of_ne_zero (Nat.ne_zero_of_lt
          (Nat.lt_of_lt_of_le i.length_encode_pos hfuel))
      obtain ⟨major, argument, after, hmajor, hhead⟩ := readHead_encode_untagged h rest
      rw [untagged.eq_2 i hi] at hhead
      refine ⟨tags, major, argument, after, ?_, hhead, hmajor, rfl⟩
      rw [readTags, hhead]
      cases major with
      | tag => exact absurd rfl hmajor
      | _ => rfl

theorem length_encode_untagged_le (i : Item) : i.untagged.encode.length ≤ i.encode.length := by
  fun_induction untagged i with
  | case1 w tag item ih =>
      rw [encode, List.length_append]
      omega
  | case2 i hi => exact Nat.le_refl _

end Item

/-- An item that is read back is read back with tags in front of it, too. -/
theorem ReadsBack.of_untagged {i : Item} {depth : Nat} (h : i.Legible)
    (hcore : ReadsBack depth i.untagged) : ReadsBack depth i := by
  cases i with
  | tagged w tag item =>
      simp only [Item.Legible, Item.everywhere, Item.isLegible, Bool.and_eq_true,
        decide_eq_true_eq] at h
      intro fuel hfuel rest
      rw [Item.encode, List.length_append] at hfuel
      obtain ⟨nested, hnested⟩ : ∃ nested, readWithin fuel depth = readItem fuel nested := by
        cases depth with
        | zero => exact ⟨none, rfl⟩
        | succ depth => exact ⟨_, rfl⟩
      obtain ⟨tags, major, argument, after, htags, hhead, hmajor, hretag⟩ :=
        Item.readTags_encode h.2 [(w, tag)] (by omega : item.encode.length ≤ fuel) rest
      have hbody : readBody fuel nested major argument after = some (item.untagged, rest) := by
        have hread := hcore fuel (Nat.le_trans item.length_encode_untagged_le (by omega)) rest
        rw [hnested, readItem, Item.untagged, hhead] at hread
        cases major with
        | tag => exact absurd rfl hmajor
        | _ => exact hread
      rw [hnested, Item.encode, List.append_assoc, readItem, readHead_head_append _ h.1]
      simp only [bind, Option.bind, htags, hbody]
      exact congrArg (fun i => some (i, rest)) hretag
  | _ => exact hcore

/-! ## All legible items -/

mutual

/-- The item under the tags is read back. -/
theorem readsBack_untagged (i : Item) {depth : Nat} (h : i.Legible) (hlevels : i.levels ≤ depth) :
    ReadsBack depth i.untagged := by
  cases i with
  | unsigned w n => exact .unsigned (of_decide_eq_true h)
  | negative w n => exact .negative (of_decide_eq_true h)
  | bytes w content => exact .bytes (of_decide_eq_true h)
  | byteChunks chunks =>
      exact .byteChunks fun c hc => of_decide_eq_true (List.all_eq_true.1 h c hc)
  | text w content => exact .text (of_decide_eq_true h)
  | textChunks chunks =>
      exact .textChunks fun c hc => of_decide_eq_true (List.all_eq_true.1 h c hc)
  | array w items =>
      obtain ⟨hlen, hitems⟩ := Bool.and_eq_true_iff.1 h
      obtain ⟨depth, rfl⟩ := Nat.exists_eq_add_of_le' (Nat.le_trans (Nat.le_add_left 1 _) hlevels)
      exact .array (of_decide_eq_true hlen)
        (readsBack_all items hitems (Nat.le_of_add_le_add_right hlevels))
  | openArray items =>
      obtain ⟨-, hitems⟩ := Bool.and_eq_true_iff.1 h
      obtain ⟨depth, rfl⟩ := Nat.exists_eq_add_of_le' (Nat.le_trans (Nat.le_add_left 1 _) hlevels)
      exact .openArray (readsBack_all items hitems (Nat.le_of_add_le_add_right hlevels))
  | map w entries =>
      obtain ⟨hlen, hentries⟩ := Bool.and_eq_true_iff.1 h
      obtain ⟨depth, rfl⟩ := Nat.exists_eq_add_of_le' (Nat.le_trans (Nat.le_add_left 1 _) hlevels)
      exact .map (of_decide_eq_true hlen)
        (readsBack_entries entries hentries (Nat.le_of_add_le_add_right hlevels))
  | openMap entries =>
      obtain ⟨-, hentries⟩ := Bool.and_eq_true_iff.1 h
      obtain ⟨depth, rfl⟩ := Nat.exists_eq_add_of_le' (Nat.le_trans (Nat.le_add_left 1 _) hlevels)
      exact .openMap (readsBack_entries entries hentries (Nat.le_of_add_le_add_right hlevels))
  | tagged w tag item =>
      exact readsBack_untagged item (Bool.and_eq_true_iff.1 h).2
        (Nat.le_trans (Item.levels_le_tagged w tag item) hlevels)
  | simple w n =>
      simp only [Item.Legible, Item.everywhere, Item.isLegible, Bool.and_eq_true, Bool.or_eq_true,
        beq_iff_eq, decide_eq_true_eq] at h
      exact .simple h.1 h.2
  | float w bits =>
      simp only [Item.Legible, Item.everywhere, Item.isLegible, Bool.and_eq_true,
        Bool.not_eq_true', Bool.or_eq_false_iff, beq_eq_false_iff_ne, decide_eq_true_eq] at h
      exact .float h.1 h.2

/-- All items in an array are read back. -/
theorem readsBack_all (items : List Item) {depth : Nat}
    (h : Item.everywhereIn Item.isLegible items = true) (hlevels : Item.levelsAll items ≤ depth) :
    ∀ i ∈ items, ReadsBack depth i := by
  cases items with
  | nil => simp
  | cons item rest =>
      obtain ⟨hitem, hrest⟩ := Bool.and_eq_true_iff.1 h
      obtain ⟨hlitem, hlrest⟩ := Nat.max_le.1 hlevels
      exact List.forall_mem_cons.2 ⟨.of_untagged hitem (readsBack_untagged item hitem hlitem),
        readsBack_all rest hrest hlrest⟩

/-- All keys and values of a map are read back. -/
theorem readsBack_entries (entries : List (Item × Item)) {depth : Nat}
    (h : Item.everywhereInEntries Item.isLegible entries = true)
    (hlevels : Item.levelsEntries entries ≤ depth) :
    ∀ e ∈ entries, ReadsBack.Entry depth e := by
  cases entries with
  | nil => simp
  | cons entry rest =>
      obtain ⟨hentry, hrest⟩ := Bool.and_eq_true_iff.1 h
      obtain ⟨hlentry, hlrest⟩ := Nat.max_le.1 hlevels
      exact List.forall_mem_cons.2 ⟨readsBack_entry entry hentry hlentry,
        readsBack_entries rest hrest hlrest⟩

/-- A key and its value are read back. -/
theorem readsBack_entry (entry : Item × Item) {depth : Nat}
    (h : Item.everywhereInEntry Item.isLegible entry = true)
    (hlevels : Item.levelsEntry entry ≤ depth) : ReadsBack.Entry depth entry := by
  obtain ⟨key, value⟩ := entry
  obtain ⟨hkey, hvalue⟩ := Bool.and_eq_true_iff.1 h
  obtain ⟨hlkey, hlvalue⟩ := Nat.max_le.1 hlevels
  exact ⟨.of_untagged hkey (readsBack_untagged key hkey hlkey),
    .of_untagged hvalue (readsBack_untagged value hvalue hlvalue)⟩

end

/-- A legible item is read back at every depth that holds its arrays, maps and tags. -/
theorem readsBack_of_legible {i : Item} {depth : Nat} (h : i.Legible) (hlevels : i.levels ≤ depth) :
    ReadsBack depth i :=
  .of_untagged h (readsBack_untagged i h hlevels)

end PairEdit.Cbor
