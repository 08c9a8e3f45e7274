import Tarako.Engcs.SendArray

/-!
# Parcels of answer lines

`eng_push_array` puts the lines of an answer into `send_array`, each behind a byte with
its length, and the response functions take them out again: the number of items is in
byte 1, the items begin at `SEND_DATA_START_POS`. The place of the next item is a byte
as well, so it wraps before the array of 512 bytes is full.
`response_items_eq_iff` says which answers come back as they were pushed.
-/

namespace Tarako

namespace Engcs

open Text

/-- A line of an answer as `eng_readline` returns it, a C string that is not empty. -/
structure ResponseLine where
  text : List UInt8
  text_ne_nil : text ≠ []
  zero_not_mem : 0 ∉ text

namespace SendArray

/-- `eng_push_array(line, strlen(line))` for each of the lines. -/
def pushLines (a : SendArray) (lines : List ResponseLine) : SendArray :=
  lines.foldl (fun a l => a.push l.text) a

end SendArray

/-- `eng_pop_array` after the lines of an answer and `eng_push_finish`. -/
def popArray (lines : List ResponseLine) : List UInt8 :=
  (Parcel.clear.sendArray.pushLines lines).finish.array.bytes

/-! ## The response functions -/

/-- The size of `item` in most of the response functions. -/
def ITEM_SIZE : ℕ := 128

/-- `snprintf(item, item_len+1, "%s", ptr)` with an `item` of `size` bytes. There is no
result when the copy leaves `item`, or when the string at `ptr` leaves the array. -/
def printItem (size itemLen : ℕ) (text : List UInt8) : Option (List UInt8) :=
  let item := (cstring text).take itemLen
  if 0 ∈ text ∧ item.length < size then some item else none

/-- The loop over `n` items from `ptr` on. A `char` of the target has no sign. -/
def takeItems (size : ℕ) (content : List UInt8) : ℕ → ℕ → Option (List (List UInt8))
  | 0, _ => some []
  | n + 1, ptr => do
      let itemLen ← content[ptr]?
      let item ← printItem size itemLen.toNat (content.drop (ptr + 1))
      let items ← takeItems size content n (ptr + 1 + itemLen.toNat)
      return item :: items

/-- The items that a response function with an `item` of `size` bytes finds in `content`. -/
def itemsOf (size : ℕ) (content : List UInt8) : Option (List (List UInt8)) := do
  let n ← content[SEND_DATA_START_POS - 1]?
  takeItems size content n.toNat SEND_DATA_START_POS

/-- The items that `eng_ResponseCGMR` finds in `content`. -/
def responseItems (content : List UInt8) : Option (List (List UInt8)) :=
  itemsOf ITEM_SIZE content

/-! ## Items in an array -/

def ResponseLine.item (l : ResponseLine) : List UInt8 :=
  UInt8.ofNat l.text.length :: l.text

def itemBytes (lines : List ResponseLine) : ℕ :=
  (lines.map fun l => l.text.length + 1).sum

@[simp] theorem itemBytes_nil : itemBytes [] = 0 := rfl

@[simp] theorem itemBytes_cons (l : ResponseLine) (lines : List ResponseLine) :
    itemBytes (l :: lines) = l.text.length + 1 + itemBytes lines := rfl

theorem length_le_itemBytes (lines : List ResponseLine) :
    2 * lines.length ≤ itemBytes lines := by
  induction lines with
  | nil => simp
  | cons l lines ih =>
      have hpos := List.length_pos_iff.mpr l.text_ne_nil
      rw [List.length_cons, itemBytes_cons]
      omega

theorem takeItems_append {lines : List ResponseLine} (hlen : ∀ l ∈ lines, l.text.length ≤ 127)
    (pre : List UInt8) {post : List UInt8} (hpost : 0 ∈ post) :
    takeItems ITEM_SIZE (pre ++ (lines.flatMap ResponseLine.item ++ post)) lines.length
        pre.length =
      some (lines.map ResponseLine.text) := by
  induction lines generalizing pre with
  | nil => rfl
  | cons l lines ih =>
      obtain ⟨hl, hlines⟩ := List.forall_mem_cons.mp hlen
      have hbyte : (UInt8.ofNat l.text.length).toNat = l.text.length := by
        rw [UInt8.toNat_ofNat']
        exact Nat.mod_eq_of_lt (by omega)
      have hcontent : pre ++ ((l :: lines).flatMap ResponseLine.item ++ post) =
          (pre ++ l.item) ++ (lines.flatMap ResponseLine.item ++ post) := by
        simp
      have hhead : (pre ++ ((l :: lines).flatMap ResponseLine.item ++ post))[pre.length]? =
          some (UInt8.ofNat l.text.length) := by
        simp [ResponseLine.item]
      have hdrop : (pre ++ ((l :: lines).flatMap ResponseLine.item ++ post)).drop
          (pre.length + 1) = l.text ++ (lines.flatMap ResponseLine.item ++ post) := by
        simp [ResponseLine.item, List.drop_append]
      have hprint : printItem ITEM_SIZE l.text.length
          (l.text ++ (lines.flatMap ResponseLine.item ++ post)) = some l.text := by
        rw [printItem, cstring_append_of_not_mem l.zero_not_mem, List.take_left]
        exact if_pos ⟨by simp [hpost], Nat.lt_succ_of_le hl⟩
      have hnext : pre.length + 1 + l.text.length = (pre ++ l.item).length := by
        simp [ResponseLine.item]
        omega
      rw [List.length_cons, takeItems, hhead, Option.bind_eq_bind, Option.bind_some, hbyte,
        hdrop, hprint, Option.bind_eq_bind, Option.bind_some, hnext, hcontent,
        ih hlines (pre ++ l.item)]
      rfl

/-- An item is never longer than the byte in front of it, so the last item is taken from
behind all that the items before it need. -/
theorem takeItems_last {size : ℕ} {content : List UInt8} {items : List (List UInt8)} {last : List UInt8}
    {n ptr : ℕ} (h : takeItems size content n ptr = some (items ++ [last]))
    (hzero : ∀ i, ptr + (items.map fun t => t.length + 1).sum ≤ i → content[i]?.getD 0 = 0) :
    last = [] := by
  induction items generalizing n ptr with
  | nil =>
      cases n with
      | zero => simp [takeItems] at h
      | succ n =>
          simp only [takeItems, Option.bind_eq_bind, Option.bind_eq_some_iff, Option.pure_def,
            Option.some.injEq] at h
          obtain ⟨itemLen, hbyte, item, hprint, rest, -, heq⟩ := h
          have hnil := hzero ptr (by simp)
          rw [hbyte, Option.getD_some] at hnil
          rw [hnil, printItem] at hprint
          split_ifs at hprint
          simp only [List.nil_append, List.cons.injEq] at heq
          rw [← heq.1, ← Option.some.inj hprint]
          rfl
  | cons x items ih =>
      cases n with
      | zero => simp [takeItems] at h
      | succ n =>
          simp only [takeItems, Option.bind_eq_bind, Option.bind_eq_some_iff, Option.pure_def,
            Option.some.injEq] at h
          obtain ⟨itemLen, hbyte, item, hprint, rest, hrest, heq⟩ := h
          obtain ⟨rfl, rfl⟩ := List.cons.inj heq
          have hlen : item.length ≤ itemLen.toNat := by
            rw [printItem] at hprint
            split_ifs at hprint
            rw [← Option.some.inj hprint, List.length_take]
            exact Nat.min_le_left _ _
          apply ih hrest
          intro i hi
          apply hzero i
          rw [List.map_cons, List.sum_cons]
          omega

theorem length_of_mem_takeItems {content : List UInt8} {items : List (List UInt8)} {n ptr : ℕ}
    (h : takeItems ITEM_SIZE content n ptr = some items) :
    items.length = n ∧ ∀ t ∈ items, t.length ≤ 127 := by
  induction n generalizing ptr items with
  | zero =>
      cases h
      simp
  | succ n ih =>
      simp only [takeItems, Option.bind_eq_bind, Option.bind_eq_some_iff, Option.pure_def,
        Option.some.injEq] at h
      obtain ⟨itemLen, -, item, hprint, rest, hrest, rfl⟩ := h
      obtain ⟨hlen, hle⟩ := ih hrest
      refine ⟨by rw [List.length_cons, hlen], List.forall_mem_cons.mpr ⟨?_, hle⟩⟩
      rw [printItem] at hprint
      split_ifs at hprint with hfit
      rw [← Option.some.inj hprint]
      exact Nat.le_of_lt_succ hfit.2

/-! ## The array after the pushes -/

namespace SendArray

theorem push_bytes {l : ResponseLine} {pre : List UInt8} {a : SendArray}
    (hbytes : a.array.bytes = pre ++ List.replicate (SEND_ARRAY_MAX_LEN - pre.length) 0)
    (hindex : a.index = pre.length) (hl : l.text.length ≤ 127) :
    (a.push l.text).array.bytes = (pre ++ l.item) ++
      List.replicate (SEND_ARRAY_MAX_LEN - (pre ++ l.item).length) 0 := by
  have hlt := a.index_lt
  have hmod : l.text.length % 256 = l.text.length := Nat.mod_eq_of_lt (by omega)
  have hrest : SEND_ARRAY_MAX_LEN - pre.length =
      l.text.length + (SEND_ARRAY_MAX_LEN - (pre ++ l.item).length) + 1 := by
    simp only [ResponseLine.item, List.length_append, List.length_cons, SEND_ARRAY_MAX_LEN]
    omega
  have hset : a.array.bytes.set a.index (UInt8.ofNat l.text.length) =
      (pre ++ [UInt8.ofNat l.text.length]) ++ List.replicate
        (l.text.length + (SEND_ARRAY_MAX_LEN - (pre ++ l.item).length)) 0 := by
    rw [hbytes, hindex, hrest, List.set_append_right _ _ (Nat.le_refl _), Nat.sub_self,
      List.replicate_succ, List.set_cons_zero]
    simp
  have hplace : a.index + 1 = (pre ++ [UInt8.ofNat l.text.length]).length := by
    rw [hindex, List.length_append, List.length_singleton]
  change Splice.splice (a.array.bytes.set a.index _) (a.index + 1)
    (l.text.take (l.text.length % 256)) = _
  rw [hset, hmod, List.take_length, hplace, Splice.splice_append_replicate]
  simp [ResponseLine.item]

/-- Lines that are pushed while the index has not wrapped lie one behind the other. -/
theorem pushLines_bytes {lines : List ResponseLine} {pre : List UInt8} {a : SendArray}
    (hbytes : a.array.bytes = pre ++ List.replicate (SEND_ARRAY_MAX_LEN - pre.length) 0)
    (hindex : a.index = pre.length % 256) (hlen : ∀ l ∈ lines, l.text.length ≤ 127)
    (hroom : lines ≠ [] → pre.length + itemBytes lines.dropLast ≤ 255) :
    (a.pushLines lines).array.bytes = pre ++ (lines.flatMap ResponseLine.item ++
      List.replicate (SEND_ARRAY_MAX_LEN - (pre.length + itemBytes lines)) 0) := by
  induction lines generalizing pre a with
  | nil => simpa [pushLines] using hbytes
  | cons l lines ih =>
      obtain ⟨hl, hlines⟩ := List.forall_mem_cons.mp hlen
      have hpre : a.index = pre.length := by
        have hle := hroom (List.cons_ne_nil _ _)
        rw [hindex, Nat.mod_eq_of_lt (by omega)]
      have hnext : (a.push l.text).index = (pre ++ l.item).length % 256 := by
        change (a.index + l.text.length % 256 + 1) % 256 = _
        rw [List.length_append, ResponseLine.item, List.length_cons]
        omega
      have hrest : lines ≠ [] → (pre ++ l.item).length + itemBytes lines.dropLast ≤ 255 := by
        intro hne
        have hle := hroom (List.cons_ne_nil _ _)
        rw [List.dropLast_cons_of_ne_nil hne, itemBytes_cons] at hle
        rw [List.length_append, ResponseLine.item, List.length_cons]
        omega
      have hall := ih (push_bytes hbytes hpre hl) hnext hlines hrest
      have hlength : (pre ++ l.item).length + itemBytes lines =
          pre.length + itemBytes (l :: lines) := by
        rw [List.length_append, ResponseLine.item, List.length_cons, itemBytes_cons]
        omega
      rw [hlength] at hall
      rw [pushLines, List.foldl_cons]
      refine hall.trans ?_
      rw [List.flatMap_cons, List.append_assoc, List.append_assoc]

theorem push_getElem?_of_lt {a : SendArray} {line : List UInt8} {i : ℕ}
    (h : a.index + line.length % 256 < i) :
    (a.push line).array.bytes[i]? = a.array.bytes[i]? := by
  have htake : (line.take (line.length % 256)).length = line.length % 256 := by
    rw [List.length_take]
    exact Nat.min_eq_left (Nat.mod_le _ _)
  have hsize := a.array.size_eq
  have hlt := a.index_lt
  have hmod : line.length % 256 < 256 := Nat.mod_lt _ (by decide)
  change (Splice.splice (a.array.bytes.set a.index _) (a.index + 1) _)[i]? = _
  rw [Splice.getElem?_splice_of_le, List.getElem?_set_ne (by omega)]
  · rw [List.length_set, hsize, htake, SEND_ARRAY_MAX_LEN]
    omega
  · rw [htake]
    omega

/-- Whatever is pushed, nothing is written behind the place where the next item would be
if the index did not wrap. -/
theorem pushLines_zero (lines : List ResponseLine) {a : SendArray} {p : ℕ}
    (hindex : a.index = p % 256) (hzero : ∀ i, p ≤ i → a.array.bytes[i]?.getD 0 = 0) :
    (a.pushLines lines).index = (p + itemBytes lines) % 256 ∧
      ∀ i, p + itemBytes lines ≤ i → (a.pushLines lines).array.bytes[i]?.getD 0 = 0 := by
  induction lines generalizing a p with
  | nil => exact ⟨hindex, hzero⟩
  | cons l lines ih =>
      have hnext : (a.push l.text).index = (p + (l.text.length + 1)) % 256 := by
        change (a.index + l.text.length % 256 + 1) % 256 = _
        rw [hindex]
        omega
      have hbehind : ∀ i, p + (l.text.length + 1) ≤ i →
          (a.push l.text).array.bytes[i]?.getD 0 = 0 := by
        intro i hi
        have hle : a.index ≤ p := hindex ▸ Nat.mod_le _ _
        rw [push_getElem?_of_lt]
        · exact hzero i (by omega)
        · have hmod := Nat.mod_le l.text.length 256
          omega
      have hall := ih hnext hbehind
      rw [itemBytes_cons, ← Nat.add_assoc]
      exact hall

theorem pushLines_itemNum (lines : List ResponseLine) {a : SendArray} {n : ℕ}
    (h : a.itemNum = n % 256) : (a.pushLines lines).itemNum = (n + lines.length) % 256 := by
  induction lines generalizing a n with
  | nil => exact h
  | cons l lines ih =>
      have hnext : (a.push l.text).itemNum = (n + 1) % 256 := by
        change (a.itemNum + 1) % 256 = _
        rw [h, Nat.mod_add_mod]
      have hall := ih hnext
      rw [List.length_cons, Nat.add_comm lines.length, ← Nat.add_assoc]
      exact hall

theorem finish_getElem?_of_le (a : SendArray) {i : ℕ} (h : SEND_DATA_START_POS ≤ i) :
    a.finish.array.bytes[i]? = a.array.bytes[i]? := by
  rw [SEND_DATA_START_POS] at h
  change ((a.array.bytes.set 0 _).set 1 _)[i]? = _
  rw [List.getElem?_set_ne (by omega), List.getElem?_set_ne (by omega)]

end SendArray

/-! ## Which answers come back -/

/-- No line is longer than `item` takes, and the last line begins before the index wraps. -/
def Fits (lines : List ResponseLine) : Prop :=
  (∀ l ∈ lines, l.text.length ≤ 127) ∧
    SEND_DATA_START_POS + itemBytes lines.dropLast ≤ 255

theorem Fits.length_le {lines : List ResponseLine} (h : Fits lines) : lines.length ≤ 127 := by
  have hle := length_le_itemBytes lines.dropLast
  have hroom := h.2
  rw [List.length_dropLast] at hle
  rw [SEND_DATA_START_POS] at hroom
  omega

theorem popArray_of_fits {lines : List ResponseLine} (h : Fits lines) :
    ∃ index, popArray lines = [index, UInt8.ofNat lines.length] ++
      (lines.flatMap ResponseLine.item ++
        List.replicate (SEND_ARRAY_MAX_LEN - (SEND_DATA_START_POS + itemBytes lines)) 0) := by
  have hbytes := @SendArray.pushLines_bytes lines [0, 0] Parcel.clear.sendArray rfl rfl h.1
    (fun _ => h.2)
  have hnum : (Parcel.clear.sendArray.pushLines lines).itemNum = lines.length := by
    have hle := h.length_le
    rw [SendArray.pushLines_itemNum lines (n := 0) rfl, Nat.zero_add]
    exact Nat.mod_eq_of_lt (by omega)
  refine ⟨UInt8.ofNat (Parcel.clear.sendArray.pushLines lines).index, ?_⟩
  rw [popArray, SendArray.finish, hnum]
  change ((Parcel.clear.sendArray.pushLines lines).array.bytes.set 0 _).set 1 _ = _
  rw [hbytes]
  rfl

theorem responseItems_of_fits {lines : List ResponseLine} (h : Fits lines) :
    responseItems (popArray lines) = some (lines.map ResponseLine.text) := by
  obtain ⟨index, hpop⟩ := popArray_of_fits h
  have hlength : (UInt8.ofNat lines.length).toNat = lines.length := by
    have hle := h.length_le
    rw [UInt8.toNat_ofNat']
    exact Nat.mod_eq_of_lt (by omega)
  have hzero : (0 : UInt8) ∈
      List.replicate (SEND_ARRAY_MAX_LEN - (SEND_DATA_START_POS + itemBytes lines)) 0 := by
    have hsplit : itemBytes lines ≤ itemBytes lines.dropLast + 128 := by
      rcases List.eq_nil_or_concat lines with rfl | ⟨init, last, hlines⟩
      · simp
      · rw [List.concat_eq_append] at hlines
        subst hlines
        have hlast := h.1 last (by simp)
        simp [itemBytes]
        omega
    have hroom := h.2
    rw [List.mem_replicate]
    rw [SEND_ARRAY_MAX_LEN, SEND_DATA_START_POS] at *
    exact ⟨by omega, rfl⟩
  rw [hpop, responseItems, itemsOf]
  have htake := takeItems_append h.1 [index, UInt8.ofNat lines.length] hzero
  change takeItems ITEM_SIZE _ (UInt8.ofNat lines.length).toNat SEND_DATA_START_POS = _
  rw [hlength]
  exact htake

/-- An answer comes back as it was pushed exactly when its lines fit. -/
theorem response_items_eq_iff (lines : List ResponseLine) :
    responseItems (popArray lines) = some (lines.map ResponseLine.text) ↔ Fits lines := by
  refine ⟨fun h => ?_, responseItems_of_fits⟩
  obtain ⟨n, -, htake⟩ := Option.bind_eq_some_iff.mp h
  have hlen : ∀ l ∈ lines, l.text.length ≤ 127 := by
    intro l hl
    exact (length_of_mem_takeItems htake).2 _ (List.mem_map_of_mem hl)
  refine ⟨hlen, ?_⟩
  by_contra hroom
  rcases List.eq_nil_or_concat lines with rfl | ⟨init, last, hlines⟩
  · exact hroom (by decide)
  · rw [List.concat_eq_append] at hlines
    subst hlines
    rw [List.dropLast_concat] at hroom
    -- the last line is pushed after the index has wrapped, and its place stays zero
    obtain ⟨hindex, hzero⟩ := SendArray.pushLines_zero init (a := Parcel.clear.sendArray)
      (p := SEND_DATA_START_POS) rfl (by
        intro i _
        change (List.replicate SEND_ARRAY_MAX_LEN (0 : UInt8))[i]?.getD 0 = 0
        rw [List.getElem?_replicate]
        split_ifs <;> rfl)
    have hbehind : ∀ i, SEND_DATA_START_POS + itemBytes init ≤ i →
        (popArray (init ++ [last]))[i]?.getD 0 = 0 := by
      intro i hi
      have hmod : last.text.length % 256 < 256 := Nat.mod_lt _ (by decide)
      rw [popArray, SendArray.finish_getElem?_of_le _ (by omega), SendArray.pushLines,
        List.foldl_append]
      change ((Parcel.clear.sendArray.pushLines init).push last.text).array.bytes[i]?.getD 0 = 0
      rw [SendArray.push_getElem?_of_lt]
      · exact hzero i hi
      · rw [hindex]
        omega
    rw [List.map_append, List.map_singleton] at htake
    apply last.text_ne_nil
    apply takeItems_last htake
    intro i hi
    apply hbehind i
    rw [List.map_map] at hi
    exact hi

/-- A line of `n` letters. -/
def letters (n : ℕ) (h : 0 < n) : ResponseLine where
  text := List.replicate n 65
  text_ne_nil := by
    rw [ne_eq, List.replicate_eq_nil_iff]
    omega
  zero_not_mem := fun hmem => absurd (List.eq_of_mem_replicate hmem) (by decide)

/-- Two lines of 126 letters leave no room for the place of a third one: its item is
read from a byte that was never written. -/
theorem response_items_three_lines :
    let lines := [letters 126 (by decide), letters 126 (by decide), letters 1 (by decide)]
    responseItems (popArray lines) =
        some [List.replicate 126 65, List.replicate 126 65, []] ∧
      responseItems (popArray lines) ≠ some (lines.map ResponseLine.text) := by
  decide +kernel

end Engcs

end Tarako
