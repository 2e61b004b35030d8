import PairEdit.Cbor.Reader

/-!
# Data items are read back

A reader that takes one thing off the front of a byte string takes several of them,
counted or up to a break.  From this an item is read back when all items inside it are,
whatever bytes follow, as long as there is fuel for its own bytes.
-/

namespace PairEdit.Cbor

variable {α : Type}

/-- The reader takes `a` off any byte string that starts with `bytes`. -/
def Reads (one : Reader α) (bytes : Bytes) (a : α) : Prop :=
  ∀ rest, one (bytes ++ rest) = some (a, rest)

/-- The reader takes nothing off an empty byte string, nor a break. -/
def StopsAtBreak (one : Reader α) : Prop :=
  one [] = none ∧ ∀ after, one (breakByte :: after) = none

/-! ## Several things in a row -/

theorem readMany_append {one : Reader α} {enc : α → Bytes} (read as : List α) (rest : Bytes)
    (h : ∀ a ∈ as, Reads one (enc a) a) :
    readMany one read as.length (as.flatMap enc ++ rest) = some (read.reverse ++ as, rest) := by
  induction as generalizing read with
  | nil => simp [readMany]
  | cons a as ih =>
      have ha := h a List.mem_cons_self (as.flatMap enc ++ rest)
      have htail := ih (a :: read) fun a' ha' => h a' (List.mem_cons_of_mem _ ha')
      rw [List.flatMap_cons, List.append_assoc, List.length_cons, readMany, ha]
      simpa [bind, Option.bind] using htail

theorem readUntilBreak_append {one : Reader α} {enc : α → Bytes} {fuel : Nat} (read as : List α)
    (rest : Bytes) (hstop : StopsAtBreak one) (h : ∀ a ∈ as, Reads one (enc a) a)
    (hfuel : as.length < fuel) :
    readUntilBreak one read fuel (as.flatMap enc ++ breakByte :: rest) =
      some (read.reverse ++ as, rest) := by
  induction as generalizing read fuel with
  | nil =>
      obtain ⟨fuel, rfl⟩ := Nat.exists_eq_succ_of_ne_zero (Nat.ne_zero_of_lt hfuel)
      simp [readUntilBreak]
  | cons a as ih =>
      obtain ⟨fuel, rfl⟩ := Nat.exists_eq_succ_of_ne_zero (Nat.ne_zero_of_lt hfuel)
      have ha := h a List.mem_cons_self (as.flatMap enc ++ breakByte :: rest)
      have htail := ih (a :: read)
        (fun a' ha' => h a' (List.mem_cons_of_mem _ ha')) (Nat.lt_of_succ_lt_succ hfuel)
      rw [List.flatMap_cons, List.append_assoc]
      -- What follows starts with a thing that can be read, so with no break.
      cases hbytes : enc a ++ (as.flatMap enc ++ breakByte :: rest) with
      | nil =>
          rw [hbytes, hstop.1] at ha
          cases ha
      | cons b after =>
          have hb : b ≠ breakByte := by
            rintro rfl
            rw [hbytes, hstop.2] at ha
            cases ha
          rw [hbytes] at ha
          simpa [readUntilBreak, hb, ha, bind, Option.bind] using htail

theorem reads_readEntry {one : Reader Item} {key value : Item} (hkey : Reads one key.encode key)
    (hvalue : Reads one value.encode value) :
    Reads (readEntry one) (Item.encodeEntry (key, value)) (key, value) := by
  intro rest
  rw [Item.encodeEntry, List.append_assoc, readEntry, hkey]
  simp only [bind, Option.bind, hvalue rest, pure]

theorem StopsAtBreak.readEntry {one : Reader Item} (h : StopsAtBreak one) :
    StopsAtBreak (readEntry one) := by
  constructor
  · simp only [Cbor.readEntry, h.1, bind, Option.bind]
  · intro after
    simp only [Cbor.readEntry, h.2, bind, Option.bind]

theorem stopsAtBreak_readWithin (fuel depth : Nat) : StopsAtBreak (readWithin fuel depth) := by
  have hitem (nested : Option (Reader Item)) : StopsAtBreak (readItem fuel nested) :=
    ⟨rfl, fun _ => rfl⟩
  cases depth with
  | zero => exact hitem none
  | succ depth => exact hitem _

/-! ## Items -/

namespace Item

theorem encodeAll_eq_flatMap (items : List Item) : encodeAll items = items.flatMap encode := by
  induction items with
  | nil => rfl
  | cons item rest ih => rw [encodeAll, List.flatMap_cons, ih]

theorem encodeEntries_eq_flatMap (entries : List (Item × Item)) :
    encodeEntries entries = entries.flatMap encodeEntry := by
  induction entries with
  | nil => rfl
  | cons entry rest ih => rw [encodeEntries, List.flatMap_cons, ih]

/-- An item has a head. -/
theorem length_encode_pos (i : Item) : 0 < i.encode.length := by
  cases i <;> simp [encode, encodeChunk, head, openHead]

end Item

theorem length_le_length_flatMap (enc : α → Bytes) {a : α} {as : List α} (h : a ∈ as) :
    (enc a).length ≤ (as.flatMap enc).length := by
  rw [List.flatMap_def]
  exact (List.sublist_flatten_of_mem (List.mem_map_of_mem h)).length_le

theorem length_le_length_flatMap_of_pos {enc : α → Bytes} (h : ∀ a, 0 < (enc a).length)
    (as : List α) : as.length ≤ (as.flatMap enc).length := by
  induction as with
  | nil => exact Nat.zero_le _
  | cons a as ih =>
      have := h a
      rw [List.flatMap_cons, List.length_append, List.length_cons]
      omega

/-- With fuel for its bytes the item is read back, arrays and maps being nested at most
`depth` deep. -/
def ReadsBack (depth : Nat) (i : Item) : Prop :=
  ∀ fuel, i.encode.length ≤ fuel → Reads (readWithin fuel depth) i.encode i

namespace ReadsBack

variable {depth n : Nat} {w : Width}

/-- An item with no items inside it is read in the same way at every depth. -/
theorem of_readItem {i : Item} (h : ∀ fuel nested, Reads (readItem fuel nested) i.encode i) :
    ReadsBack depth i := by
  intro fuel _
  cases depth with
  | zero => exact h fuel none
  | succ depth => exact h fuel _

theorem unsigned (h : n < w.bound) : ReadsBack depth (.unsigned w n) := by
  refine of_readItem fun fuel nested rest => ?_
  simp only [Item.encode, readItem, readHead_head_append _ h, bind, Option.bind, readBody]

theorem text {t : Text} (h : (Utf8.encode t).length < w.bound) :
    ReadsBack depth (.text w t) := by
  refine of_readItem fun fuel nested rest => ?_
  simp only [Item.encode, Item.encodeChunk, List.append_assoc, readItem,
    readHead_head_append _ h, bind, Option.bind, readBody, Sequence.cut?_eq]
  simp [Utf8.decode?_encode]

theorem array {items : List Item} (hlen : items.length < w.bound)
    (h : ∀ i ∈ items, ReadsBack depth i) : ReadsBack (depth + 1) (.array w items) := by
  intro fuel hfuel rest
  rw [Item.encode, List.length_append, Item.encodeAll_eq_flatMap] at hfuel
  have hitems : ∀ i ∈ items, Reads (readWithin fuel depth) i.encode i := by
    intro i hi
    have := length_le_length_flatMap Item.encode hi
    exact h i hi fuel (by omega)
  simp only [Item.encode, List.append_assoc, readWithin, readItem, readHead_head_append _ hlen,
    bind, Option.bind, readBody, Item.encodeAll_eq_flatMap, readMany_append [] items rest hitems]
  rfl

/-- The key and the value of an entry are read back. -/
def Entry (depth : Nat) (e : Item × Item) : Prop := ReadsBack depth e.1 ∧ ReadsBack depth e.2

theorem Entry.reads {fuel : Nat} {e : Item × Item} (h : Entry depth e)
    (hfuel : (Item.encodeEntry e).length ≤ fuel) :
    Reads (readEntry (readWithin fuel depth)) (Item.encodeEntry e) e := by
  obtain ⟨key, value⟩ := e
  rw [Item.encodeEntry, List.length_append] at hfuel
  exact reads_readEntry (h.1 fuel (by dsimp only; omega)) (h.2 fuel (by dsimp only; omega))

theorem map {entries : List (Item × Item)} (hlen : entries.length < w.bound)
    (h : ∀ e ∈ entries, Entry depth e) : ReadsBack (depth + 1) (.map w entries) := by
  intro fuel hfuel rest
  rw [Item.encode, List.length_append, Item.encodeEntries_eq_flatMap] at hfuel
  have hentries : ∀ e ∈ entries,
      Reads (readEntry (readWithin fuel depth)) (Item.encodeEntry e) e := by
    intro e he
    have := length_le_length_flatMap Item.encodeEntry he
    exact (h e he).reads (by omega)
  simp only [Item.encode, List.append_assoc, readWithin, readItem, readHead_head_append _ hlen,
    bind, Option.bind, readBody, Item.encodeEntries_eq_flatMap,
    readMany_append [] entries rest hentries]
  rfl

theorem openMap {entries : List (Item × Item)} (h : ∀ e ∈ entries, Entry depth e) :
    ReadsBack (depth + 1) (.openMap entries) := by
  intro fuel hfuel rest
  rw [Item.encode, List.length_append, List.length_append, Item.encodeEntries_eq_flatMap,
    List.length_singleton] at hfuel
  have hentries : ∀ e ∈ entries,
      Reads (readEntry (readWithin fuel depth)) (Item.encodeEntry e) e := by
    intro e he
    have := length_le_length_flatMap Item.encodeEntry he
    exact (h e he).reads (by omega)
  have hpos : ∀ e, 0 < (Item.encodeEntry e).length := by
    intro e
    have := Item.length_encode_pos e.1
    rw [Item.encodeEntry, List.length_append]
    omega
  have hcount := length_le_length_flatMap_of_pos hpos entries
  have hread := readUntilBreak_append [] entries rest
    (stopsAtBreak_readWithin fuel depth).readEntry hentries (by omega : _ < fuel)
  simp only [Item.encode, List.append_assoc, List.singleton_append, readWithin, readItem,
    readHead_openHead_append, bind, Option.bind, readBody, Item.encodeEntries_eq_flatMap, hread]
  rfl

end ReadsBack

/-- The whole of a byte string is fuel enough for what it starts with. -/
theorem read_append {depth : Nat} {i : Item} (h : ReadsBack depth i) (rest : Bytes) :
    read depth (i.encode ++ rest) = some (i, rest) := by
  refine h _ ?_ rest
  rw [List.length_append]
  exact Nat.le_add_right _ _

end PairEdit.Cbor
